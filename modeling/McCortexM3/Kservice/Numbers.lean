import McCortexM3.Kservice.Directive

/-!
# The fields of numbers

The field that `print_number` writes, compared with the one that `printf` writes.  Both are a row of
spaces, a sign, a prefix, zeros, digits and spaces, and are the same if and only if these parts are.

## Main definitions

* `layout` — the parts of a field.
* `Directive.Agrees` — where `print_number` does what `printf` does.

## Main results

* `text_numberPieces`, `Directive.field_eq` — the parts of the two fields.
* `layout_eq_iff` — fields are the same if their parts are.
* `Directive.field_eq_iff` — the directives whose fields are those of `printf`.
-/

set_option linter.all false

namespace RtThread

open List CharSink
open Bool (false_eq_true)
open Int32 (le_toInt lt_iff_toInt_lt ofNat toInt_lt toInt_neg toInt_ofNat_of_lt toInt_sub)
open Option (getD_none getD_some toList_some)

/-! ### The parts of a field -/

/-- Spaces, a sign, a prefix, zeros, digits and spaces. -/
def layout (a : ℕ) (sign pre : List UInt8) (z : ℕ) (digits : List UInt8) (b : ℕ) : List UInt8 :=
  List.replicate a (chr ' ') ++ (sign ++ (pre ++ (List.replicate z (chr '0') ++
    (digits ++ List.replicate b (chr ' ')))))

theorem length_layout (a : ℕ) (sign pre : List UInt8) (z : ℕ) (digits : List UInt8) (b : ℕ) :
    (layout a sign pre z digits b).length =
      a + sign.length + pre.length + z + digits.length + b := by
  unfold layout
  simp only [length_append, length_replicate]
  omega

/-- The digits of a number without zeros in front of them. -/
structure Significant (letter : UInt8) (digits : List UInt8) : Prop where
  space : chr ' ' ∉ digits
  letter : letter ∉ digits
  head : digits.head? ≠ some (chr '0')

theorem Significant.dropWhile {letter : UInt8} {digits : List UInt8} (h : Significant letter digits)
    (z : ℕ) : (replicate z (chr '0') ++ digits).dropWhile (· = chr '0') = digits := by
  induction z with
  | zero =>
    cases digits with
    | nil => rfl
    | cons c digits =>
      have hc : c ≠ chr '0' := fun he => h.head (congrArg some he)
      simp [hc]
  | succ z ih => simpa [replicate_succ] using ih

theorem filter_layout {letter : UInt8} {a z b : ℕ} {sign pre digits : List UInt8}
    (hletter : letter ≠ chr ' ') (hpre : pre = [] ∨ pre = [chr '0', letter])
    (hdigits : Significant letter digits) :
    (layout a sign pre z digits b).filter (· ≠ chr ' ') =
      sign.filter (· ≠ chr ' ') ++ (pre ++ (replicate z (chr '0') ++ digits)) := by
  have hspaces : ∀ n, (replicate n (chr ' ')).filter (· ≠ chr ' ') = [] := by
    intro n
    simp
  have hzeros : (replicate z (chr '0')).filter (· ≠ chr ' ') = replicate z (chr '0') :=
    filter_eq_self.2 fun c hc => by
      rw [(mem_replicate.1 hc).2]
      decide
  have hkept : pre.filter (· ≠ chr ' ') = pre := by
    rcases hpre with rfl | rfl
    · rfl
    · refine filter_eq_self.2 fun c hc => ?_
      rcases mem_pair.1 hc with rfl | rfl
      · decide
      · exact decide_eq_true hletter
  have hrest : digits.filter (· ≠ chr ' ') = digits :=
    filter_eq_self.2 fun c hc => decide_eq_true fun he => hdigits.space (he ▸ hc)
  unfold layout
  simp only [filter_append, hspaces, hzeros, hkept, hrest, nil_append, append_nil]

/-- **Fields are the same if their parts are**, when there are spaces at the same end only. -/
theorem layout_eq_iff {letter : UInt8} {a a' z z' b b' : ℕ} {sign digits digits' : List UInt8}
    {pre pre' : List UInt8} (hletter : letter ≠ chr '0' ∧ letter ≠ chr ' ')
    (hpre : pre = [] ∨ pre = [chr '0', letter]) (hpre' : pre' = [] ∨ pre' = [chr '0', letter])
    (hdigits : Significant letter digits) (hdigits' : Significant letter digits')
    (hspaces : (a = 0 ∧ a' = 0) ∨ (b = 0 ∧ b' = 0)) :
    layout a sign pre z digits b = layout a' sign pre' z' digits' b' ↔
      pre = pre' ∧ z = z' ∧ digits = digits' ∧ a + b = a' + b' := by
  constructor
  · intro h
    have hlength := congrArg List.length h
    have hfilter := congrArg (List.filter (· ≠ chr ' ')) h
    rw [filter_layout hletter.2 hpre hdigits, filter_layout hletter.2 hpre' hdigits',
      append_right_inj] at hfilter
    rw [length_layout, length_layout] at hlength
    -- the prefix is there if its letter is
    have hmem : letter ∈ pre ↔ letter ∈ pre' := by
      have hmem := congrArg (letter ∈ ·) hfilter
      simpa [hdigits.letter, hdigits'.letter, mem_replicate, hletter.1] using hmem
    have hletters : pre = pre' := by
      rcases hpre with rfl | rfl <;> rcases hpre' with rfl | rfl
      · rfl
      · simp at hmem
      · simp at hmem
      · rfl
    rw [hletters, append_right_inj] at hfilter
    have hsame := congrArg (List.dropWhile (· = chr '0')) hfilter
    rw [hdigits.dropWhile, hdigits'.dropWhile] at hsame
    have hzeros := congrArg List.length hfilter
    rw [length_append, length_append, length_replicate, length_replicate, hsame] at hzeros
    rw [hletters, hsame] at hlength
    exact ⟨hletters, by omega, hsame, by omega⟩
  · rintro ⟨rfl, rfl, rfl, hab⟩
    obtain ⟨rfl, rfl⟩ : a = a' ∧ b = b' := by omega
    rfl

/-! ### Digits -/

/-- The letter of the prefix. -/
def prefixLetter (large : Bool) : UInt8 := if large then chr 'X' else chr 'x'

/-- The digits of a number, from the first one on. -/
def numeral (large : Bool) (b v : ℕ) : List UInt8 :=
  ((Nat.digits b v).map (Directive.digitChar large)).reverse

theorem digitChar_spec : ∀ (large : Bool) (k : Fin 16),
    (if large then largeDigits else smallDigits).getD k 0 = Directive.digitChar large k ∧
      Directive.digitChar large k ≠ chr ' ' ∧
      Directive.digitChar large k ≠ prefixLetter large ∧
      (Directive.digitChar large k = chr '0' → k = 0) ∧
      ∀ k' : Fin 16, Directive.digitChar large k = Directive.digitChar large k' → k = k' := by
  decide +kernel

theorem tmpLoop_eq (large : Bool) (base : UInt8) {b : ℕ} (hbase : b = if base = 10 then 10 else 16)
    (fuel : ℕ) (num : UInt32) (hnum : num.toNat < b ^ fuel) :
    tmpLoop large base fuel num = (Nat.digits b num.toNat).map (Directive.digitChar large) := by
  have hb : 1 < b ∧ b ≤ 16 := by
    rw [hbase]
    split <;> decide
  have hdivide : ∀ num, (divide num base).1.toNat = num.toNat % b ∧
      (divide num base).2.toNat = num.toNat / b := by
    intro num
    rw [hbase]
    unfold divide
    split
    · exact ⟨UInt32.toNat_mod .., UInt32.toNat_div ..⟩
    · exact ⟨UInt32.toNat_mod .., UInt32.toNat_div ..⟩
  induction fuel generalizing num with
  | zero =>
    have hzero : num.toNat = 0 := by
      rw [Nat.pow_zero] at hnum
      omega
    rw [hzero, Nat.digits_zero]
    rfl
  | succ fuel ih =>
    obtain ⟨hdigit, hrest⟩ := hdivide num
    unfold tmpLoop
    split
    · next h =>
      rw [h]
      exact (congrArg (List.map _) (Nat.digits_zero b)).symm
    · next h =>
      have hpos : 0 < num.toNat := Nat.pos_of_ne_zero fun he => h (UInt32.toNat_inj.1 he)
      have hlt : num.toNat % b < 16 := Nat.lt_of_lt_of_le (Nat.mod_lt _ (by omega)) hb.2
      rw [Nat.digits_def' hb.1 hpos, map_cons, hdigit,
        (digitChar_spec large ⟨num.toNat % b, hlt⟩).1, ih _ ?_, hrest]
      rw [hrest, Nat.div_lt_iff_lt_mul (by omega), ← Nat.pow_succ]
      exact hnum

theorem tmpDigits_reverse (large : Bool) (base : UInt8) (num : UInt32) :
    (tmpDigits large base num).reverse =
      if num.toNat = 0 then [chr '0']
      else numeral large (if base = 10 then 10 else 16) num.toNat := by
  have hzero : num = 0 ↔ num.toNat = 0 := UInt32.toNat_inj.symm
  unfold tmpDigits
  simp only [hzero]
  split
  · rfl
  · rw [tmpLoop_eq large base rfl]
    · rfl
    · have hlt := num.toNat_lt
      split <;> omega

theorem length_tmpDigits (large : Bool) (base : UInt8) (num : UInt32) :
    (tmpDigits large base num).length =
      max 1 (numeral large (if base = 10 then 10 else 16) num.toNat).length := by
  rw [← length_reverse, tmpDigits_reverse]
  split
  · next h =>
    rw [h]
    simp [numeral]
  · next h =>
    have hpos : (numeral large (if base = 10 then 10 else 16) num.toNat).length ≠ 0 := by
      unfold numeral
      rw [length_reverse, length_map, Ne, length_eq_zero_iff, Nat.digits_eq_nil_iff_eq_zero]
      exact h
    omega

theorem significant_numeral (large : Bool) {b : ℕ} (hb : 1 < b ∧ b ≤ 16) (v : ℕ) :
    Significant (prefixLetter large) (numeral large b v) := by
  have hlt : ∀ k ∈ Nat.digits b v, k < 16 := fun k hk =>
    Nat.lt_of_lt_of_le (Nat.digits_lt_base hb.1 hk) hb.2
  constructor
  · intro hmem
    obtain ⟨k, hk, he⟩ := mem_map.1 (mem_reverse.1 hmem)
    exact (digitChar_spec large ⟨k, hlt k hk⟩).2.1 he
  · intro hmem
    obtain ⟨k, hk, he⟩ := mem_map.1 (mem_reverse.1 hmem)
    exact (digitChar_spec large ⟨k, hlt k hk⟩).2.2.1 he
  · intro hhead
    unfold numeral at hhead
    rw [head?_reverse, getLast?_map, Option.map_eq_some_iff] at hhead
    obtain ⟨k, hk, he⟩ := hhead
    have hmem := mem_of_getLast? hk
    have hzero := (digitChar_spec large ⟨k, hlt k hmem⟩).2.2.2.1 he
    have hne : Nat.digits b v ≠ [] := ne_nil_of_mem hmem
    rw [getLast?_eq_some_getLast hne, Option.some.injEq] at hk
    refine Nat.getLast_digit_ne_zero b (m := v) (fun hv => ?_) (hk.trans (congrArg Fin.val hzero))
    rw [hv, Nat.digits_zero] at hne
    exact hne rfl

theorem map_digitChar_inj {large : Bool} {l l' : List ℕ} (hl : ∀ k ∈ l, k < 16)
    (hl' : ∀ k ∈ l', k < 16)
    (h : l.map (Directive.digitChar large) = l'.map (Directive.digitChar large)) : l = l' := by
  induction l generalizing l' with
  | nil =>
    cases l' with
    | nil => rfl
    | cons k' l' => cases h
  | cons k l ih =>
    cases l' with
    | nil => cases h
    | cons k' l' =>
      rw [map_cons, map_cons, List.cons.injEq] at h
      obtain ⟨hk, hl⟩ := forall_mem_cons.1 hl
      obtain ⟨hk', hl'⟩ := forall_mem_cons.1 hl'
      have he : k = k' :=
        congrArg Fin.val ((digitChar_spec large ⟨k, hk⟩).2.2.2.2 ⟨k', hk'⟩ h.1)
      rw [ih hl hl' h.2, he]

theorem numeral_eq_iff (large : Bool) (v : ℕ) : numeral large 16 v = numeral large 8 v ↔ v < 8 := by
  constructor
  · intro h
    have hdigits : Nat.digits 16 v = Nat.digits 8 v :=
      map_digitChar_inj (fun k hk => Nat.digits_lt_base (by decide) hk)
        (fun k hk => Nat.lt_trans (Nat.digits_lt_base (by decide) hk) (by decide))
        (reverse_inj.1 h)
    have h16 := Nat.ofDigits_digits 16 v
    have h8 := Nat.ofDigits_digits 8 v
    rw [hdigits] at h16
    cases hl : Nat.digits 8 v with
    | nil =>
      rw [Nat.digits_eq_nil_iff_eq_zero] at hl
      omega
    | cons k l =>
      -- the other digits would count for more to the base 16
      have hk : k < 8 := Nat.digits_lt_base (by decide) (hl ▸ mem_cons_self)
      have hle := Nat.ofDigits_monotone l (show 8 ≤ 16 by decide)
      rw [hl, Nat.ofDigits_cons] at h16 h8
      omega
  · intro h
    unfold numeral
    rcases Nat.eq_zero_or_pos v with rfl | hpos
    · rfl
    · rw [Nat.digits_of_lt 16 v (by omega) (by omega), Nat.digits_of_lt 8 v (by omega) h]

theorem length_tmpDigits_le (large : Bool) (base : UInt8) (num : UInt32) :
    (tmpDigits large base num).length ≤ 16 := by
  have hloop : ∀ fuel num, (tmpLoop large base fuel num).length ≤ fuel := by
    intro fuel
    induction fuel with
    | zero => exact fun _ => le_rfl
    | succ fuel ih =>
      intro num
      unfold tmpLoop
      split
      · exact Nat.zero_le _
      · exact Nat.succ_le_succ (ih _)
  unfold tmpDigits
  split
  · exact (by decide)
  · exact hloop 16 num

/-! ### The field of `print_number` -/

section

variable [PrintfConfig]

/-- Zeros are not filled in behind the number. -/
def fillFlags (type : PrintfFlags) : PrintfFlags :=
  { type with zeropad := type.zeropad && !type.left }

/-- The number without its sign. -/
def absVar (type : PrintfFlags) (num : Int32) : UInt32 :=
  (if type.sign ∧ num < 0 then -num else num).toUInt32

/-- The number of digits. -/
def countVar (tmp : List UInt8) (precision : Int32) : Int32 :=
  if .ofNat tmp.length > precision then .ofNat tmp.length else precision

/-- The text of a field, when the variable `size` behind the prefix and the digits is `size`. -/
def numberText (type : PrintfFlags) (base : UInt8) (tmp : List UInt8)
    (precision precisionBak : Int32) (sign : Option UInt8) (size : Int32) : List UInt8 :=
  leadChars type sign size ++ (sign.toList ++ bodyChars type base tmp precision precisionBak
    (if sign.isSome then signSize type sign size - 1 else signSize type sign size))

theorem text_numberPieces (num : Int32) (base : UInt8) (s precision : Int32) (type : PrintfFlags)
    {tmp : List UInt8} (htmp : tmpDigits type.large base (absVar type num) = tmp) :
    text (numberPieces num base s precision type) =
      numberText (fillFlags type) base tmp (countVar tmp precision) precision
        (signChar (fillFlags type) num)
        (fillSize (fillFlags type) base s (countVar tmp precision)) := by
  rw [← htmp]
  unfold numberPieces signPieces
  dsimp only
  show flatMap Piece.text _ = _
  unfold numberText
  rw [fillFlags]
  generalize signChar { type with zeropad := type.zeropad && !type.left } num = sign
  cases sign with
  | none =>
    simp [Piece.text]
    rfl
  | some c =>
    simp [Piece.text]
    rfl

/-- The least value that `size` can have without going round later. -/
def sizeMin (type : PrintfFlags) (sign : Option UInt8) : ℤ :=
  -2 ^ 31 + sign.toList.length + if type.left then 0 else if type.zeropad then 1 else 2

theorem toInt_spin (n : Int32) :
    (if 0 < n then -1 else n - 1).toInt =
      if 0 < n.toInt then -1 else if n.toInt = -2 ^ 31 then 2 ^ 31 - 1 else n.toInt - 1 := by
  have hpos : 0 < n ↔ 0 < n.toInt := lt_iff_toInt_lt
  simp only [hpos]
  split
  · rfl
  · exact toInt_sub_one n

theorem replicate_spin (c : UInt8) {n : Int32} (hn : -2 ^ 31 < n.toInt) :
    replicate (if 0 < n then -1 else n - 1).toInt.toNat c = [] := by
  have hspin := toInt_spin n
  generalize (if 0 < n then -1 else n - 1) = m at hspin ⊢
  rw [replicate_eq_nil_iff]
  split_ifs at hspin <;> omega

theorem length_toList_le (sign : Option UInt8) : sign.toList.length ≤ 1 := by
  cases sign with
  | none => exact Nat.zero_le _
  | some c => exact le_rfl

theorem toInt_behind_eq (sign : Option UInt8) (n : Int32) :
    (if sign.isSome then n - 1 else n).toInt =
      if n.toInt - sign.toList.length < -2 ^ 31 then 2 ^ 31 - 1
      else n.toInt - sign.toList.length := by
  have hlo := le_toInt n
  cases sign with
  | none =>
    show n.toInt = _
    rw [Option.toList_none, length_nil, if_neg (by omega)]
    exact (Int.sub_zero _).symm
  | some c =>
    rw [toList_some, length_singleton]
    show (n - 1).toInt = _
    rw [toInt_sub_one]
    split_ifs <;> omega

theorem toInt_behind (sign : Option UInt8) {n : Int32}
    (hn : -2 ^ 31 + sign.toList.length ≤ n.toInt) :
    (if sign.isSome then n - 1 else n).toInt = n.toInt - sign.toList.length := by
  rw [toInt_behind_eq, if_neg (by omega)]

/-- `size` in front of the spaces: the sign is counted if there is room for it. -/
theorem toInt_lead (sign : Option UInt8) (size : Int32) :
    (if sign.isSome ∧ 0 < size then size - 1 else size).toInt =
      if 0 < size.toInt then size.toInt - sign.toList.length else size.toInt := by
  have hpos : 0 < size ↔ 0 < size.toInt := lt_iff_toInt_lt
  have hpred := toInt_sub_one size
  simp only [hpos]
  cases sign with
  | none => simp
  | some c =>
    rw [toList_some, length_singleton]
    by_cases h : 0 < size.toInt
    · rw [if_pos ⟨rfl, h⟩, if_pos h, hpred, if_neg (by omega)]
      rfl
    · rw [if_neg fun hand => h hand.2, if_neg h]

theorem numberText_eq {type : PrintfFlags} (htype : type.left = true → type.zeropad = false)
    (base : UInt8) (tmp : List UInt8) (precision precisionBak : Int32) (sign : Option UInt8)
    (size : Int32) (hsize : sizeMin type sign ≤ size.toInt) :
    numberText type base tmp precision precisionBak sign size =
      replicate (if type.left || type.zeropad then 0
          else (size.toInt - sign.toList.length).toNat) (chr ' ') ++
        (sign.toList ++ (specialPrefix type base ++
          (replicate (if type.zeropad then (size.toInt - sign.toList.length).toNat else 0)
            (chr '0') ++ (replicate (precision.toInt - tmp.length).toNat (chr '0') ++
              ((if precisionBak ≠ 0 then tmp.reverse else []) ++
                replicate (if type.left then (size.toInt - sign.toList.length).toNat else 0)
                  (chr ' ')))))) := by
  unfold sizeMin at hsize
  unfold numberText leadChars signSize bodyChars
  cases hleft : type.left with
  | true =>
    rw [htype hleft]
    simp only [hleft, if_true, add_zero] at hsize
    simp only [Bool.or_true, Bool.or_false, if_true, if_false, false_eq_true,
      replicate_zero, nil_append, toInt_behind sign hsize]
  | false =>
    cases hzero : type.zeropad with
    | true =>
      simp only [hleft, hzero, if_true, if_false, false_eq_true] at hsize
      have hbehind := toInt_behind sign (n := size) (by omega)
      simp only [Bool.or_true, Bool.or_false, if_true, if_false, false_eq_true,
        replicate_zero, nil_append]
      rw [replicate_spin _ (by rw [hbehind]; omega), hbehind]
    | false =>
      simp only [hleft, hzero, if_false, false_eq_true] at hsize
      -- the sign is counted before the spaces, if there is room for it, and again behind them
      have hlead := toInt_lead sign size
      generalize (if sign.isSome ∧ 0 < size then size - 1 else size) = lead at hlead ⊢
      have hspaces : lead.toInt.toNat = (size.toInt - sign.toList.length).toNat := by
        split_ifs at hlead <;> omega
      have hsign := length_toList_le sign
      have hspin := toInt_spin lead
      generalize (if 0 < lead then -1 else lead - 1) = rest at hspin ⊢
      have hrest : -2 ^ 31 + sign.toList.length < rest.toInt ∧ rest.toInt < 0 := by
        split_ifs at hlead hspin <;> omega
      have hbehind := toInt_behind sign (n := rest) (by omega)
      have hnone : replicate (if sign.isSome then rest - 1 else rest).toInt.toNat (chr ' ') =
          [] := by
        rw [hbehind, replicate_eq_nil_iff]
        omega
      simp only [Bool.or_false, if_false, false_eq_true, hnone, replicate_zero, nil_append, hspaces]
      rw [replicate_spin _ (by rw [hbehind]; omega)]

theorem le_length_numberText (type : PrintfFlags) (base : UInt8) (tmp : List UInt8)
    (precision precisionBak : Int32) (sign : Option UInt8) (size : Int32)
    (hsize : size.toInt < sizeMin type sign ∨ 2 ^ 31 - 8 ≤ size.toInt) :
    (precision.toInt - tmp.length).toNat + (2 ^ 31 - 8) ≤
      (numberText type base tmp precision precisionBak sign size).length := by
  have hlo := le_toInt size
  have hsign := length_toList_le sign
  have hbehind := toInt_behind_eq sign
  have hspin := toInt_spin
  unfold sizeMin at hsize
  unfold numberText
  rw [length_append, length_append, length_bodyChars]
  unfold leadChars signSize
  cases hleft : type.left with
  | true =>
    have hrest := hbehind size
    simp only [hleft, if_true] at hsize
    simp only [Bool.or_true, if_true, length_nil]
    generalize (if sign.isSome then size - 1 else size) = rest at hrest ⊢
    split_ifs at hrest <;> omega
  | false =>
    cases hzero : type.zeropad with
    | true =>
      have hrest := hbehind size
      have hlast := hspin (if sign.isSome then size - 1 else size)
      simp only [hleft, hzero, if_true, if_false, false_eq_true] at hsize
      simp only [Bool.or_false, if_true, if_false, false_eq_true, length_nil]
      generalize (if sign.isSome then size - 1 else size) = rest at hrest hlast ⊢
      generalize (if 0 < rest then -1 else rest - 1) = last at hlast ⊢
      split_ifs at hrest hlast <;> omega
    | false =>
      have hlead := toInt_lead sign size
      simp only [hleft, hzero, if_false, false_eq_true] at hsize
      simp only [Bool.or_false, if_false, false_eq_true, length_replicate]
      generalize (if sign.isSome ∧ 0 < size then size - 1 else size) = lead at hlead ⊢
      have hnext := hspin lead
      generalize (if 0 < lead then -1 else lead - 1) = next at hnext ⊢
      have hrest := hbehind next
      generalize (if sign.isSome then next - 1 else next) = rest at hrest ⊢
      have hlast := hspin rest
      generalize (if 0 < rest then -1 else rest - 1) = last at hlast ⊢
      split_ifs at hlead hnext hrest hlast <;> omega

theorem toInt_fillSize (type : PrintfFlags) (base : UInt8) (s precision : Int32) :
    (fillSize type base s precision).toInt =
      (s.toInt - (specialPrefix type base).length - precision.toInt).bmod (2 ^ 32) := by
  have hlength : (specialPrefix type base).length ≤ 2 := by
    unfold specialPrefix
    split_ifs <;> decide
  have hspecial : (ofNat (specialPrefix type base).length).toInt =
      (specialPrefix type base).length := toInt_ofNat_of_lt (by omega)
  unfold fillSize
  rw [toInt_sub, toInt_sub, hspecial, Int.bmod_sub_bmod]

namespace Directive

/-- The flags of the conversion. -/
def type (d : Directive) (args : List UInt32) : PrintfFlags :=
  { (d.spec args).flags with sign := d.signed, large := d.large }

/-- The variable `num`. -/
def numVar (d : Directive) (args : List UInt32) : Int32 :=
  (integerArg (d.spec args).qualifier d.signed ((d.numberArgs args).headD 0)).toInt32

/-- The text of the conversion. -/
def codeText (d : Directive) (args : List UInt32) : List UInt8 :=
  text (numberPieces (d.numVar args) (.ofNat d.base) (d.widthVar args) (d.precisionVar args)
    (d.type args))

theorem integerConversion_conv (d : Directive) (args : List UInt32) :
    integerConversion (d.spec args).flags d.conv.char = some (.ofNat d.base, d.type args) := by
  unfold Directive.type Directive.base Directive.signed Directive.large
  cases d.conv <;> rfl

/-- **A directive in a format**: the field of a number, and what follows. -/
theorem unlimitedText_format (strings : UInt32 → List UInt8) (d : Directive) (rest : List UInt8)
    (args : List UInt32) :
    unlimitedText strings (d.format ++ rest) args =
      d.codeText args ++ unlimitedText strings rest (d.numberArgs args).tail := by
  have htail : d.format ++ rest = chr '%' :: (d.format.tail ++ rest) := rfl
  have hspec := getSpec_format d rest args
  generalize d.format.tail ++ rest = tail at htail hspec
  have hlength := length_getSpec tail args
  rw [hspec, length_cons] at hlength
  unfold unlimitedText
  rw [htail, length_cons, formatLoop, if_pos rfl, hspec]
  dsimp only
  rw [convert, integerConversion_conv]
  dsimp only
  rw [printNumber_eq, writeAll_list, nil_append, formatLoop_fuel strings rest (by omega),
    formatLoop_eq, writeAll_list, formatLoop_eq, writeAll_list]
  rfl

/-! ### The number -/

theorem toNat_toUInt32 (x : Int32) :
    (x.toUInt32.toNat : ℤ) = if x.toInt < 0 then x.toInt + 2 ^ 32 else x.toInt := by
  have h := BitVec.toInt_eq_toNat_cond x.toBitVec
  have hlt := x.toUInt32.toNat_lt
  have he : x.toBitVec.toNat = x.toUInt32.toNat := rfl
  have hi : x.toBitVec.toInt = x.toInt := rfl
  rw [he, hi] at h
  split_ifs at h ⊢ <;> omega

variable {d : Directive} {args : List UInt32}

theorem toInt_numVar (hsigned : d.signed = true) (args : List UInt32) :
    (d.numVar args).toInt = d.value args := by
  unfold numVar value spec integerArg
  rw [hsigned]
  cases d.length with
  | short =>
    show ((d.numberArgs args).headD 0).toUInt16.toInt16.toInt32.toUInt32.toInt32.toInt = _
    rw [Int32.toInt32_toUInt32, Int16.toInt_toInt32]
  | int => rfl
  | long => rfl

theorem toNat_numVar (hsigned : d.signed = false) (args : List UInt32) :
    ((d.numVar args).toUInt32.toNat : ℤ) = d.value args := by
  unfold numVar value spec integerArg
  rw [hsigned, UInt32.toUInt32_toInt32]
  cases d.length with
  | short =>
    show ((((d.numberArgs args).headD 0).toUInt16.toUInt32.toNat : ℕ) : ℤ) = _
    rw [UInt16.toNat_toUInt32]
  | int => rfl
  | long => rfl

theorem toNat_absVar (d : Directive) (args : List UInt32) :
    (absVar (d.type args) (d.numVar args)).toNat = (d.value args).natAbs := by
  have hlt : d.numVar args < 0 ↔ (d.numVar args).toInt < 0 := lt_iff_toInt_lt
  have htype : (d.type args).sign = d.signed := rfl
  unfold absVar
  simp only [htype]
  by_cases hsigned : d.signed = true
  · have hvalue := toInt_numVar hsigned args
    have hlo := le_toInt (d.numVar args)
    have hneg := toInt_neg (d.numVar args)
    rw [Int.bmod_def] at hneg
    simp only [hlt, hsigned, true_and]
    split
    · have hnat := toNat_toUInt32 (-d.numVar args)
      split_ifs at hnat hneg <;> omega
    · have hnat := toNat_toUInt32 (d.numVar args)
      rw [if_neg (by assumption)] at hnat
      omega
  · have hvalue := toNat_numVar (Bool.eq_false_iff.2 hsigned) args
    rw [if_neg fun hand => hsigned hand.1]
    omega

theorem signChar_eq (d : Directive) (args : List UInt32) :
    (signChar (fillFlags (d.type args)) (d.numVar args)).toList = d.sign args := by
  have hlt : d.numVar args < 0 ↔ (d.numVar args).toInt < 0 := lt_iff_toInt_lt
  have htype : (fillFlags (d.type args)).sign = d.signed ∧
      (fillFlags (d.type args)).plus = decide (.plus ∈ d.flags) ∧
      (fillFlags (d.type args)).space = decide (.space ∈ d.flags) := ⟨rfl, rfl, rfl⟩
  unfold signChar sign
  rw [htype.1, htype.2.1, htype.2.2]
  cases hsigned : d.signed with
  | true =>
    rw [if_pos rfl, if_pos rfl, ← toInt_numVar hsigned args]
    simp only [hlt, decide_eq_true_eq]
    split_ifs <;> rfl
  | false =>
    have hvalue := toNat_numVar hsigned args
    rw [if_neg Bool.false_ne_true, if_neg Bool.false_ne_true, if_neg (by omega)]
    rfl

/-! ### The field of `printf` -/

theorem base_spec (d : Directive) :
    (d.base = 10 ∨ d.base = 16 ∨ d.base = 8) ∧ ((.ofNat d.base : UInt8) = 10 ↔ d.base = 10) ∧
      ((.ofNat d.base : UInt8) = 16 ↔ d.base = 16) ∧
      ((.ofNat d.base : UInt8) = 8 ↔ d.base = 8) := by
  unfold base
  cases d.conv <;> decide

/-- The digits of the absolute value. -/
def magnitude (d : Directive) (args : List UInt32) : ℕ := (d.value args).natAbs

/-- The number of zeros that the precision asks for. -/
def zerosWanted (d : Directive) (args : List UInt32) : ℕ :=
  max ((d.digitsWanted args).getD 1)
      (if d.base = 8 ∧ .hash ∈ d.flags then (d.significant args).length + 1 else 0) -
    (d.significant args).length

theorem significant_significant (d : Directive) (args : List UInt32) :
    Significant (prefixLetter d.large) (d.significant args) := by
  refine significant_numeral d.large ?_ _
  rcases d.base_spec.1 with h | h | h <;> rw [h] <;> decide

theorem digits_eq (d : Directive) (args : List UInt32) :
    d.digits args = replicate (d.zerosWanted args) (chr '0') ++ d.significant args := by
  have hhead := (d.significant_significant args).head
  unfold digits zerosWanted
  generalize d.significant args = l at hhead ⊢
  generalize (d.digitsWanted args).getD 1 = p
  by_cases halt : d.base = 8 ∧ .hash ∈ d.flags
  · rw [if_pos halt]
    dsimp only
    rcases Nat.lt_or_ge l.length p with hlt | hge
    · -- there is a zero already
      obtain ⟨k, hk⟩ : ∃ k, p - l.length = k + 1 := ⟨p - l.length - 1, by omega⟩
      rw [if_neg, show max p (l.length + 1) - l.length = p - l.length by omega]
      rw [hk]
      exact fun h => h.2.2 rfl
    · rw [Nat.sub_eq_zero_of_le hge, replicate_zero, nil_append,
        if_pos ⟨halt.1, halt.2, hhead⟩, show max p (l.length + 1) - l.length = 1 by omega]
      rfl
  · rw [if_neg halt, if_neg fun h => halt ⟨h.1, h.2.1⟩, Nat.max_zero]

/-- Zeros fill the field of `printf`. -/
def zeroFilled (d : Directive) (args : List UInt32) : Bool :=
  decide (.zero ∈ d.flags) && !d.leftAdjusted args

/-- The characters that fill the field of `printf`. -/
def fill (d : Directive) (args : List UInt32) : ℕ := d.fieldWidth args - (d.content args).length

theorem length_content (d : Directive) (args : List UInt32) :
    (d.content args).length = (d.sign args).length + (d.hexPrefix args).length +
      (d.zerosWanted args + (d.significant args).length) := by
  rw [content, length_append, length_append, digits_eq, length_append, length_replicate]

/-- **The field of `printf`.** -/
theorem field_eq (d : Directive) (args : List UInt32) :
    d.field args =
      layout (if d.leftAdjusted args = true ∨ d.zeroFilled args ∧ d.digitsWanted args = none then 0
          else d.fill args) (d.sign args) (d.hexPrefix args)
        ((if d.zeroFilled args ∧ d.digitsWanted args = none then d.fill args else 0) +
          d.zerosWanted args) (d.significant args)
        (if d.leftAdjusted args then d.fill args else 0) := by
  unfold field layout zeroFilled fill
  rw [content, digits_eq]
  by_cases hleft : d.leftAdjusted args = true
  · simp [hleft]
  · by_cases hzero : .zero ∈ d.flags ∧ d.digitsWanted args = none
    · simp [hleft, hzero, ← replicate_append_replicate]
    · by_cases hflag : .zero ∈ d.flags
      · have hwanted : d.digitsWanted args ≠ none := fun h => hzero ⟨hflag, h⟩
        simp [hleft, hflag, hwanted]
      · simp [hleft, hflag]

theorem length_field (d : Directive) (args : List UInt32) :
    (d.field args).length = max (d.fieldWidth args) (d.content args).length := by
  rw [field_eq, length_layout]
  have hlength := d.length_content args
  unfold fill
  by_cases hleft : d.leftAdjusted args = true
  · have hzero : d.zeroFilled args = false := by
      unfold zeroFilled
      rw [hleft, Bool.not_true, Bool.and_false]
    simp only [hleft, hzero, true_or, if_true, false_eq_true, false_and, if_false]
    omega
  · by_cases hzero : d.zeroFilled args = true ∧ d.digitsWanted args = none
    · simp only [hleft, hzero, or_true, and_self, if_true, if_false, false_eq_true]
      omega
    · simp only [hleft, hzero, or_self, if_false, false_eq_true]
      omega

/-! ### The variables of `rt_vsnprintf` -/

/-- The precision as it is given. -/
def precisionGiven (d : Directive) (args : List UInt32) : Option ℤ :=
  (d.precisionArg (d.widthArg args).2).1

/-- The width as `rt_vsnprintf` has it: none is less by one than nothing. -/
def widthGiven (d : Directive) (args : List UInt32) : ℤ :=
  match d.width with
  | .absent => -1
  | _ => d.fieldWidth args

theorem toInt_widthVar (h : d.fieldWidth args < 2 ^ 31) :
    (d.widthVar args).toInt = d.widthGiven args := by
  unfold fieldWidth widthArg at h
  unfold widthVar widthGiven fieldWidth widthArg
  cases hwidth : d.width with
  | absent => rfl
  | number first rest =>
    rw [hwidth] at h
    exact toInt_ofNat_of_lt h
  | star =>
    rw [hwidth] at h
    dsimp only at h ⊢
    have hneg : (args.headD 0).toInt32 < 0 ↔ (args.headD 0).toInt32.toInt < 0 :=
      lt_iff_toInt_lt
    have hbmod := toInt_neg (args.headD 0).toInt32
    simp only [hneg]
    split
    · rw [hbmod, Int.bmod_eq_of_le (by omega) (by omega)]
      omega
    · omega

/-- The precision as `rt_vsnprintf` has it. -/
def precisionValue (d : Directive) (args : List UInt32) : ℤ :=
  match d.precisionGiven args with
  | none => -1
  | some p => max p 0

theorem toInt_precisionVar (h : ∀ p, d.precisionGiven args = some p → p < 2 ^ 31) :
    (d.precisionVar args).toInt = d.precisionValue args := by
  unfold precisionValue precisionGiven precisionArg
  unfold precisionGiven precisionArg at h
  unfold precisionVar
  cases hprecision : d.precision with
  | absent => rfl
  | number digits =>
    rw [hprecision] at h
    have hlt := h _ rfl
    have hvalue : (ofNat (decimal 0 digits)).toInt = decimal 0 digits :=
      toInt_ofNat_of_lt (by omega)
    have hneg : ¬ ofNat (decimal 0 digits) < 0 := by
      rw [lt_iff_toInt_lt, hvalue]
      exact Int.not_lt.2 (Int.natCast_nonneg _)
    dsimp only
    rw [if_neg hneg, hvalue]
    exact (max_eq_left (Int.natCast_nonneg _)).symm
  | star =>
    dsimp only
    have hneg : ((d.widthArg args).2.headD 0).toInt32 < 0 ↔
        ((d.widthArg args).2.headD 0).toInt32.toInt < 0 := lt_iff_toInt_lt
    simp only [hneg]
    split
    · next hlt => exact (max_eq_right (Int.le_of_lt hlt)).symm
    · next hlt => exact (max_eq_left (Int.not_lt.1 hlt)).symm

theorem digitsWanted_eq (d : Directive) (args : List UInt32) :
    d.digitsWanted args =
      match d.precisionGiven args with
      | none => none
      | some p => if p < 0 then none else some p.toNat := rfl

/-- **The variables** do not go round, if an `int` can count the characters of the field. -/
theorem lt_of_length_field (h : (d.field args).length < 2 ^ 31) :
    d.fieldWidth args < 2 ^ 31 ∧ ∀ p, d.precisionGiven args = some p → p < 2 ^ 31 := by
  rw [length_field, length_content] at h
  refine ⟨by omega, fun p hp => ?_⟩
  have hwanted := d.digitsWanted_eq args
  rw [hp] at hwanted
  unfold zerosWanted at h
  rw [hwanted] at h
  dsimp only at h
  split_ifs at h <;> simp only [getD_some, getD_none] at h <;> omega

/-! ### The field of `print_number` -/

/-- `0x` in front of a number: `print_number` does not ask whether it is zero. -/
def codePrefix (d : Directive) : List UInt8 :=
  if d.base = 16 ∧ .hash ∈ d.flags ∧ printfSpecial = true then [chr '0', prefixLetter d.large]
  else []

/-- The zero in front of a number to the base 8: `print_number` does not ask whether there is one
already. -/
def octalZero (d : Directive) : ℕ :=
  if d.base = 8 ∧ .hash ∈ d.flags ∧ printfSpecial = true then 1 else 0

/-- The digits that `divide` finds: those to the base 16 for the base 8. -/
def codeNumeral (d : Directive) (args : List UInt32) : List UInt8 :=
  numeral d.large (if d.base = 10 then 10 else 16) (d.magnitude args)

/-- The number of digits that `print_number` counts. -/
def codeCount (d : Directive) (args : List UInt32) : ℕ :=
  max (max 1 (d.codeNumeral args).length) (d.precisionVar args).toInt.toNat

/-- The characters that `print_number` counts. -/
def codeLength (d : Directive) (args : List UInt32) : ℕ :=
  (d.sign args).length + (d.codePrefix.length + d.octalZero + d.codeCount args)

/-- What the variable `size` loses behind the characters that fill the field. -/
def sizeSlack (d : Directive) (args : List UInt32) : ℕ :=
  if d.leftAdjusted args then 0 else if d.zeroFilled args then 1 else 2

theorem specialPrefix_eq (d : Directive) (args : List UInt32) :
    specialPrefix (fillFlags (d.type args)) (.ofNat d.base) =
      d.codePrefix ++ replicate d.octalZero (chr '0') := by
  have htype : (fillFlags (d.type args)).special = decide (.hash ∈ d.flags) ∧
      (fillFlags (d.type args)).large = d.large := ⟨rfl, rfl⟩
  obtain ⟨hbase, -, h16, h8⟩ := d.base_spec
  unfold specialPrefix codePrefix octalZero prefixLetter
  rw [htype.1, htype.2]
  simp only [h16, h8, Bool.and_eq_true, decide_eq_true_eq]
  by_cases hhash : .hash ∈ d.flags
  · by_cases hspecial : printfSpecial = true
    · rcases hbase with h | h | h <;> simp [hhash, hspecial, h]
    · simp [hspecial]
  · simp [hhash]

theorem text_directive (d : Directive) (args : List UInt32) :
    ∃ tmp sign, tmp.reverse = (if d.magnitude args = 0 then [chr '0'] else d.codeNumeral args) ∧
      tmp.length = max 1 (d.codeNumeral args).length ∧ tmp.length ≤ 16 ∧
      Option.toList sign = d.sign args ∧
      d.codeText args = numberText (fillFlags (d.type args)) (.ofNat d.base) tmp
        (countVar tmp (d.precisionVar args))
        (d.precisionVar args) sign
        (fillSize (fillFlags (d.type args)) (.ofNat d.base) (d.widthVar args)
          (countVar tmp (d.precisionVar args))) := by
  have h10 := d.base_spec.2.1
  have habs := d.toNat_absVar args
  refine ⟨_, signChar (fillFlags (d.type args)) (d.numVar args), ?_, ?_, length_tmpDigits_le _ _ _,
    d.signChar_eq args, text_numberPieces _ _ _ _ _ rfl⟩
  · rw [tmpDigits_reverse, habs]
    simp only [h10]
    rfl
  · rw [length_tmpDigits, habs]
    simp only [h10]
    rfl

theorem toInt_countVar {tmp : List UInt8}
    (hlength : tmp.length = max 1 (d.codeNumeral args).length) (hshort : tmp.length ≤ 16) :
    (countVar tmp (d.precisionVar args)).toInt = d.codeCount args := by
  have htmp : (ofNat tmp.length).toInt = tmp.length := toInt_ofNat_of_lt (by omega)
  have hlt : .ofNat tmp.length > d.precisionVar args ↔
      (d.precisionVar args).toInt < (ofNat tmp.length).toInt := lt_iff_toInt_lt
  unfold countVar codeCount
  rw [← hlength]
  simp only [hlt, htmp]
  split <;> omega

theorem length_codePrefix_le (d : Directive) : d.codePrefix.length + d.octalZero ≤ 2 := by
  unfold codePrefix octalZero
  by_cases h16 : d.base = 16
  · have h8 : d.base ≠ 8 := by omega
    simp only [h8, false_and, if_false]
    split_ifs <;> simp
  · simp only [h16, false_and, if_false]
    split_ifs <;> simp

theorem sizeMin_eq (d : Directive) {args : List UInt32} {sign : Option UInt8}
    (hsign : sign.toList = d.sign args) :
    sizeMin (fillFlags (d.type args)) sign = -2 ^ 31 + (d.sign args).length + d.sizeSlack args := by
  rw [← hsign]
  unfold sizeMin sizeSlack
  show _ + (if d.leftAdjusted args = true then 0 else if d.zeroFilled args = true then 1 else 2 : ℤ)
    = _
  split_ifs <;> rfl

theorem toInt_size {tmp : List UInt8}
    (hlength : tmp.length = max 1 (d.codeNumeral args).length) (hshort : tmp.length ≤ 16)
    (hwidth : -1 ≤ (d.widthVar args).toInt) :
    (fillSize (fillFlags (d.type args)) (.ofNat d.base) (d.widthVar args)
        (countVar tmp (d.precisionVar args))).toInt =
      (d.widthVar args).toInt + (d.sign args).length - d.codeLength args +
        if (d.widthVar args).toInt + (d.sign args).length - d.codeLength args < -2 ^ 31 then 2 ^ 32
        else 0 := by
  have hlt := toInt_lt (d.widthVar args)
  have hcount := toInt_lt (countVar tmp (d.precisionVar args))
  have hcode := d.length_codePrefix_le
  rw [toInt_fillSize, specialPrefix_eq, length_append, length_replicate]
  rw [toInt_countVar hlength hshort] at hcount ⊢
  unfold codeLength
  rw [Int.bmod_def]
  split_ifs <;> omega

/-- **The field of `print_number`**, if `size` does not go round. -/
theorem text_directive_eq (hwidth : -1 ≤ (d.widthVar args).toInt)
    (hfits : (d.codeLength args + d.sizeSlack args : ℤ) ≤ 2 ^ 31 + (d.widthVar args).toInt) :
    d.codeText args =
      layout (if d.leftAdjusted args = true ∨ d.zeroFilled args = true then 0
          else ((d.widthVar args).toInt - d.codeLength args).toNat) (d.sign args) d.codePrefix
        (d.octalZero +
          (if d.zeroFilled args then ((d.widthVar args).toInt - d.codeLength args).toNat else 0) +
          if d.precisionVar args = 0 then 0 else d.codeCount args - (d.codeNumeral args).length)
        (if d.precisionVar args = 0 then [] else d.codeNumeral args)
        (if d.leftAdjusted args then ((d.widthVar args).toInt - d.codeLength args).toNat
          else 0) := by
  obtain ⟨tmp, sign, hreverse, hlength, hshort, hsign, htext⟩ := d.text_directive args
  have hsize := toInt_size hlength hshort hwidth
  have hcount := toInt_countVar hlength hshort
  have hslack := d.sizeMin_eq hsign
  rw [if_neg (by omega), add_zero] at hsize
  have hzeropad : (fillFlags (d.type args)).left = true →
      (fillFlags (d.type args)).zeropad = false := by
    intro hleft
    show (_ && !(d.type args).left) = false
    rw [show (d.type args).left = true from hleft, Bool.not_true, Bool.and_false]
  have hfill : (d.widthVar args).toInt + (d.sign args).length - d.codeLength args -
      (d.sign args).length = (d.widthVar args).toInt - d.codeLength args := by omega
  -- a zero is a digit of the text, but none of the numeral
  have hzeros : replicate ((d.codeCount args : ℤ) - tmp.length).toNat (chr '0') ++
      (if d.precisionVar args ≠ 0 then tmp.reverse else []) =
      replicate (if d.precisionVar args = 0 then 0
          else d.codeCount args - (d.codeNumeral args).length) (chr '0') ++
        if d.precisionVar args = 0 then [] else d.codeNumeral args := by
    by_cases hprecision : d.precisionVar args = 0
    · have hnone : ((d.codeCount args : ℤ) - tmp.length).toNat = 0 := by
        unfold codeCount
        rw [hprecision, hlength]
        have hzero : (0 : Int32).toInt = 0 := rfl
        omega
      rw [hnone, if_neg (not_not.2 hprecision), if_pos hprecision, if_pos hprecision]
    · rw [if_pos hprecision, if_neg hprecision, if_neg hprecision, hreverse]
      have hle : 1 ≤ d.codeCount args := by
        unfold codeCount
        omega
      split
      · next hzero =>
        have hnil : d.codeNumeral args = [] := by
          unfold codeNumeral numeral
          rw [hzero, Nat.digits_zero]
          rfl
        rw [hnil, length_nil] at hlength ⊢
        rw [hlength, append_nil, ← replicate_succ']
        congr 1
        omega
      · next hzero =>
        have hpos : (d.codeNumeral args).length ≠ 0 := by
          unfold codeNumeral numeral
          rw [length_reverse, length_map, Ne, length_eq_zero_iff, Nat.digits_eq_nil_iff_eq_zero]
          exact hzero
        congr 2
        omega
  rw [htext, numberText_eq hzeropad _ _ _ _ _ _ (by rw [hslack, hsize]; omega), hsize, hcount,
    hsign, specialPrefix_eq, hfill]
  show replicate (if d.leftAdjusted args || d.zeroFilled args then 0 else _) _ ++
    (_ ++ (_ ++ (replicate (if d.zeroFilled args then _ else 0) _ ++ (_ ++
      (_ ++ replicate (if d.leftAdjusted args then _ else 0) _))))) = _
  unfold layout
  rw [← append_assoc (replicate (_ - _ : ℤ).toNat _), hzeros]
  simp only [Bool.or_eq_true, ← replicate_append_replicate, append_assoc]

theorem le_length_text (hwidth : -1 ≤ (d.widthVar args).toInt)
    (hfits : 2 ^ 31 + (d.widthVar args).toInt < (d.codeLength args + d.sizeSlack args : ℤ)) :
    2 ^ 31 ≤ (d.codeText args).length := by
  obtain ⟨tmp, sign, -, hlength, hshort, hsign, htext⟩ := d.text_directive args
  have hsize := toInt_size hlength hshort hwidth
  have hcount := toInt_countVar hlength hshort
  have hslack := d.sizeMin_eq hsign
  have hle := le_length_numberText (fillFlags (d.type args)) (.ofNat d.base) tmp
    (countVar tmp (d.precisionVar args)) (d.precisionVar args) sign
    (fillSize (fillFlags (d.type args)) (.ofNat d.base) (d.widthVar args)
      (countVar tmp (d.precisionVar args)))
  have hcode := d.length_codePrefix_le
  have hone := length_toList_le sign
  have hcount' := toInt_lt (countVar tmp (d.precisionVar args))
  have hcode : d.codeLength args =
    (d.sign args).length + (d.codePrefix.length + d.octalZero + d.codeCount args) := rfl
  have hlong : 2 ^ 31 - 6 < (d.codeCount args : ℤ) := by
    unfold sizeSlack at hfits
    rw [hsign] at hone
    split_ifs at hfits <;> omega
  rw [hslack, hcount, ← htext] at hle
  have hcases := hle (by split_ifs at hsize <;> omega)
  omega

/-! ### Where the fields are the same -/

/-- With `#` and the base 8, and with digits that are right. -/
def OctalAgrees (d : Directive) (args : List UInt32) : Prop :=
  match d.precisionGiven args with
  | none =>
    (printfSpecial = true ↔ d.value args ≠ 0) ∨ d.zeroFilled args = true ∧ 2 ≤ d.fieldWidth args
  | some p =>
    if p ≤ 0 then d.value args = 0 ∧ printfSpecial = true ∧ d.fieldWidth args ≤ 1
    else if printfSpecial = true then
      d.value args ≠ 0 ∧ p = 1 ∧ (d.zeroFilled args = true → d.fieldWidth args ≤ 2)
    else if d.value args = 0 ∨ 2 ≤ p then d.zeroFilled args = true → (d.fieldWidth args : ℤ) ≤ p
    else d.zeroFilled args = true ∧ d.fieldWidth args = 2

/-- Without `#` or with another base, and with digits that are right. -/
def PlainAgrees (d : Directive) (args : List UInt32) : Prop :=
  (d.base = 16 ∧ .hash ∈ d.flags → (printfSpecial = true ↔ d.value args ≠ 0)) ∧
    match d.precisionGiven args with
    | none => True
    | some p =>
      if p < 0 then False
      else if p = 0 then d.value args = 0 ∧ d.fieldWidth args ≤ (d.sign args).length
      else d.zeroFilled args = true → d.fieldWidth args ≤ (d.content args).length

/-- The precision is not so great that the variable `size` goes round. -/
def SizeFits (d : Directive) (args : List UInt32) : Prop :=
  ∀ p ∈ d.precisionGiven args,
    (d.sign args).length + d.codePrefix.length + d.octalZero + p + d.sizeSlack args ≤
      2 ^ 31 + d.widthGiven args

/-- **Where `print_number` does what `printf` does.** -/
def Agrees (d : Directive) (args : List UInt32) : Prop :=
  (d.base = 8 → d.magnitude args < 8) ∧
    (if d.base = 8 ∧ .hash ∈ d.flags then d.OctalAgrees args else d.PlainAgrees args) ∧
    d.SizeFits args

theorem codeNumeral_eq_iff (d : Directive) (args : List UInt32) :
    d.codeNumeral args = d.significant args ↔ (d.base = 8 → d.magnitude args < 8) := by
  unfold codeNumeral significant
  rcases d.base_spec.1 with h | h | h
  · rw [h]
    simp [numeral, magnitude]
  · rw [h]
    simp [numeral, magnitude]
  · rw [h]
    simp only [forall_const]
    exact numeral_eq_iff d.large (d.magnitude args)

theorem significant_eq_nil (d : Directive) (args : List UInt32) :
    (d.significant args).length = 0 ↔ d.value args = 0 := by
  unfold significant
  rw [length_reverse, length_map, length_eq_zero_iff,
    Nat.digits_eq_nil_iff_eq_zero, Int.natAbs_eq_zero]

theorem length_significant_le (hbase : d.base = 8)
    (hlt : d.magnitude args < 8) : (d.significant args).length ≤ 1 := by
  unfold significant
  rw [length_reverse, length_map, hbase]
  rcases Nat.eq_zero_or_pos (d.value args).natAbs with h | h
  · rw [h, Nat.digits_zero]
    exact Nat.zero_le _
  · rw [Nat.digits_of_lt 8 _ (by omega) (show (d.value args).natAbs < 8 from hlt)]
    exact le_rfl

theorem codePrefix_eq_iff (d : Directive) (args : List UInt32) :
    d.codePrefix = d.hexPrefix args ↔
      (d.base = 16 ∧ .hash ∈ d.flags → (printfSpecial = true ↔ d.value args ≠ 0)) := by
  unfold codePrefix hexPrefix prefixLetter
  by_cases hbase : d.base = 16 ∧ .hash ∈ d.flags
  · obtain ⟨hbase, hhash⟩ := hbase
    by_cases hspecial : printfSpecial = true <;> by_cases hvalue : d.value args = 0 <;>
      simp [hbase, hhash, hspecial, hvalue]
  · have hnot : ∀ p : Prop, ¬ (d.base = 16 ∧ .hash ∈ d.flags ∧ p) :=
      fun p h => hbase ⟨h.1, h.2.1⟩
    simp [hnot, hbase]

theorem length_sign_le (d : Directive) (args : List UInt32) : (d.sign args).length ≤ 1 := by
  obtain ⟨tmp, sign, -, -, -, hsign, -⟩ := d.text_directive args
  rw [← hsign]
  exact length_toList_le sign

theorem sizeFits_iff
    (hwidth : (d.widthVar args).toInt = d.widthGiven args) (hle : -1 ≤ d.widthGiven args)
    (hprecision : (d.precisionVar args).toInt = d.precisionValue args) :
    (d.codeLength args + d.sizeSlack args : ℤ) ≤ 2 ^ 31 + (d.widthVar args).toInt ↔
      d.SizeFits args := by
  obtain ⟨tmp, sign, -, hlength, hshort, -, -⟩ := d.text_directive args
  have hsign := d.length_sign_le args
  have hcode := d.length_codePrefix_le
  have hslack : d.sizeSlack args ≤ 2 := by
    unfold sizeSlack
    split_ifs <;> decide
  rw [hlength] at hshort
  unfold SizeFits codeLength codeCount
  rw [hwidth, hprecision]
  unfold precisionValue
  cases d.precisionGiven args with
  | none =>
    refine iff_of_true ?_ (fun p hp => by cases hp)
    dsimp only
    omega
  | some p =>
    simp only [Option.mem_some_iff, forall_eq']
    omega

/-- The characters that fill the field of `print_number`. -/
def codeFill (d : Directive) (args : List UInt32) : ℕ := d.fieldWidth args - d.codeLength args

/-- The zeros of the two fields are as many, and the spaces too. -/
def SameLengths (d : Directive) (args : List UInt32) : Prop :=
  d.octalZero + (if d.zeroFilled args then d.codeFill args else 0) +
      (if (d.precisionVar args).toInt = 0 then 0
        else d.codeCount args - (d.codeNumeral args).length) =
    (if d.zeroFilled args ∧ d.digitsWanted args = none then d.fill args else 0) +
      d.zerosWanted args ∧
  (if d.zeroFilled args then 0 else d.codeFill args) =
    (if d.zeroFilled args ∧ d.digitsWanted args = none then 0 else d.fill args)

theorem sign_octal (hbase : d.base = 8) (args : List UInt32) : d.sign args = [] := by
  have hsigned : d.signed = false := by
    unfold base at hbase
    unfold signed
    cases hconv : d.conv <;> rw [hconv] at hbase <;> first | rfl | exact absurd hbase (by decide)
  have hvalue := toNat_numVar hsigned args
  unfold sign
  rw [if_neg (by omega), hsigned, if_neg Bool.false_ne_true]

/-- **The parts are the same**, if the digits are: with `#` and the base 8. -/
theorem parts_octal (hbase : d.base = 8)
    (hhash : .hash ∈ d.flags) (hlt : d.magnitude args < 8)
    (hprecision : (d.precisionVar args).toInt = d.precisionValue args) :
    ((d.precisionVar args).toInt = 0 → d.value args = 0) ∧ d.SameLengths args ↔
      d.OctalAgrees args := by
  have hsame : d.codeNumeral args = d.significant args := (d.codeNumeral_eq_iff args).2 fun _ => hlt
  have hone := length_significant_le hbase hlt
  have hzero := d.significant_eq_nil args
  have hcontent := d.length_content args
  have hwanted := d.digitsWanted_eq args
  have hhex : d.hexPrefix args = [] := if_neg fun h => by
    rw [hbase] at h
    exact absurd h.1 (by decide)
  have hcode : d.codePrefix = [] := if_neg fun h => by
    rw [hbase] at h
    exact absurd h.1 (by decide)
  unfold OctalAgrees SameLengths codeFill fill codeLength octalZero codeCount
  rw [hcontent]
  unfold zerosWanted precisionValue at *
  rw [hhex, hcode, hsame, hwanted, hprecision, sign_octal hbase]
  generalize (d.significant args).length = n at hone hzero ⊢
  generalize d.fieldWidth args = w
  -- what is left is about lengths, with a digit or without one
  have hdigits : n = 0 ∧ d.value args = 0 ∨ n = 1 ∧ d.value args ≠ 0 := by omega
  clear hcontent hwanted hprecision hsame hhex hcode hlt hone hzero
  simp only [hbase, hhash, true_and, length_nil, if_true, and_self, zero_add]
  rcases d.precisionGiven args with _ | p
  case' some => rcases Int.lt_trichotomy p 0 with hneg | rfl | hpos
  case' none => simp only [getD_none, Int.reduceNeg, Int.reduceEq, Int.reduceToNat, if_false]
  case' some.inl =>
    simp only [if_pos hneg, if_pos (Int.le_of_lt hneg), max_eq_right (Int.le_of_lt hneg), if_true,
      getD_none]
  case' some.inr.inl =>
    simp only [Int.lt_irrefl, Int.le_refl, max_self, if_true, if_false, getD_some, reduceCtorEq]
  case' some.inr.inr =>
    simp only [if_neg (Int.not_lt.2 (Int.le_of_lt hpos)), if_neg (Int.not_le.2 hpos),
      max_eq_left (Int.le_of_lt hpos), if_neg (Int.ne_of_gt hpos), getD_some, reduceCtorEq]
  all_goals
    rcases hdigits with ⟨rfl, hvalue⟩ | ⟨rfl, hvalue⟩ <;>
      cases d.zeroFilled args <;> cases printfSpecial <;>
      simp only [hvalue, ne_eq, eq_self, not_true_eq_false, not_false_eq_true, false_eq_true,
        true_and, false_and, and_false, and_true, true_or, false_or, or_false, ite_prop_iff_or,
        zero_add, add_zero, Nat.sub_zero, max_self, Nat.max_zero, true_imp_iff, false_imp_iff,
        iff_true, iff_false, if_true, if_false] <;>
      omega

/-- **The parts are the same**, if the digits and the prefix are: without `#` or to another base. -/
theorem parts_plain
    (halt : ¬ (d.base = 8 ∧ .hash ∈ d.flags)) (hsame : d.codeNumeral args = d.significant args)
    (hhex : d.codePrefix = d.hexPrefix args)
    (hprecision : (d.precisionVar args).toInt = d.precisionValue args) :
    ((d.precisionVar args).toInt = 0 → d.value args = 0) ∧ d.SameLengths args ↔
      d.PlainAgrees args := by
  have hzero := d.significant_eq_nil args
  have hcontent := d.length_content args
  have hwanted := d.digitsWanted_eq args
  have hnone : d.value args = 0 → (d.hexPrefix args).length = 0 := by
    intro h
    unfold hexPrefix
    rw [if_neg fun hand => hand.2.2 h]
    rfl
  have hoctal : d.octalZero = 0 := if_neg fun h => halt ⟨h.1, h.2.1⟩
  unfold PlainAgrees SameLengths codeFill fill codeLength codeCount
  rw [and_iff_right ((d.codePrefix_eq_iff args).1 hhex), hcontent]
  unfold zerosWanted precisionValue at *
  rw [hhex, hoctal, hsame, hwanted, hprecision, if_neg halt]
  generalize (d.significant args).length = n at hzero ⊢
  generalize (d.hexPrefix args).length = m at hnone ⊢
  generalize d.fieldWidth args = w
  generalize (d.sign args).length = k
  -- what is left is about lengths, with digits or without
  have hdigits : n = 0 ∧ d.value args = 0 ∧ m = 0 ∨ 1 ≤ n ∧ d.value args ≠ 0 := by omega
  clear hcontent hwanted hprecision hsame hhex hoctal hzero hnone
  rcases d.precisionGiven args with _ | p
  case' some => rcases Int.lt_trichotomy p 0 with hneg | rfl | hpos
  case' none => simp only [getD_none, Int.reduceNeg, Int.reduceEq, Int.reduceToNat, if_false]
  case' some.inl =>
    simp only [if_pos hneg, max_eq_right (Int.le_of_lt hneg), if_true, getD_none]
  case' some.inr.inl =>
    simp only [Int.lt_irrefl, max_self, if_true, if_false, getD_some, reduceCtorEq]
  case' some.inr.inr =>
    simp only [if_neg (Int.not_lt.2 (Int.le_of_lt hpos)), max_eq_left (Int.le_of_lt hpos),
      if_neg (Int.ne_of_gt hpos), getD_some, reduceCtorEq]
  all_goals
    rcases hdigits with ⟨rfl, hvalue, rfl⟩ | ⟨hle, hvalue⟩ <;>
      cases d.zeroFilled args <;>
      simp only [hvalue, ne_eq, eq_self, not_true_eq_false, not_false_eq_true, false_eq_true,
        true_and, false_and, and_false, and_true, true_imp_iff, false_imp_iff, iff_true, iff_false,
        zero_add, add_zero, Nat.sub_zero, max_self, Nat.max_zero, if_true, if_false] <;>
      omega

theorem text_eq_iff (hwidth : -1 ≤ (d.widthVar args).toInt)
    (hnat : (d.widthVar args).toInt.toNat = d.fieldWidth args)
    (hfits : (d.codeLength args + d.sizeSlack args : ℤ) ≤ 2 ^ 31 + (d.widthVar args).toInt) :
    d.codeText args = d.field args ↔
      d.codePrefix = d.hexPrefix args ∧
        (if (d.precisionVar args).toInt = 0 then [] else d.codeNumeral args) = d.significant args ∧
        d.SameLengths args := by
  have hbase := d.base_spec.1
  have hfill : ((d.widthVar args).toInt - d.codeLength args).toNat = d.codeFill args := by
    unfold codeFill
    omega
  have hzero : d.precisionVar args = 0 ↔ (d.precisionVar args).toInt = 0 := by
    rw [← Int32.toInt_inj]
    rfl
  have hletter : prefixLetter d.large ≠ chr '0' ∧ prefixLetter d.large ≠ chr ' ' := by
    cases d.large <;> decide
  have hcode : d.codePrefix = [] ∨ d.codePrefix = [chr '0', prefixLetter d.large] := by
    unfold codePrefix
    split
    · exact .inr rfl
    · exact .inl rfl
  have hhex : d.hexPrefix args = [] ∨ d.hexPrefix args = [chr '0', prefixLetter d.large] := by
    unfold hexPrefix
    split
    · exact .inr rfl
    · exact .inl rfl
  have hdigits : Significant (prefixLetter d.large)
      (if d.precisionVar args = 0 then [] else d.codeNumeral args) := by
    split
    · exact ⟨not_mem_nil, not_mem_nil, fun h => by cases h⟩
    · exact significant_numeral d.large (by split <;> decide) _
  -- nothing is filled with zeros on the left
  have hleft : d.leftAdjusted args = true → d.zeroFilled args = false := by
    intro h
    unfold zeroFilled
    rw [h, Bool.not_true, Bool.and_false]
  rw [text_directive_eq hwidth hfits, field_eq, hfill,
    layout_eq_iff hletter hcode hhex hdigits (d.significant_significant args) ?_]
  · have hspaces : (if d.leftAdjusted args = true ∨ d.zeroFilled args = true then 0
          else d.codeFill args) + (if d.leftAdjusted args then d.codeFill args else 0) =
        if d.zeroFilled args then 0 else d.codeFill args := by
      by_cases h : d.leftAdjusted args = true
      · simp [h, hleft h]
      · simp [h]
    have hspaces' : (if d.leftAdjusted args = true ∨
          d.zeroFilled args = true ∧ d.digitsWanted args = none then 0 else d.fill args) +
          (if d.leftAdjusted args then d.fill args else 0) =
        if d.zeroFilled args = true ∧ d.digitsWanted args = none then 0 else d.fill args := by
      by_cases h : d.leftAdjusted args = true
      · simp [h, hleft h]
      · simp [h]
    rw [hspaces, hspaces']
    simp only [hzero]
    exact and_congr_right fun _ => and_left_comm
  · by_cases h : d.leftAdjusted args = true
    · exact .inl ⟨if_pos (.inl h), if_pos (.inl h)⟩
    · exact .inr ⟨if_neg h, if_neg h⟩

end Directive

/-- **Where the field of a number is the one of `printf`.** -/
theorem Directive.field_eq_iff (strings : UInt32 → List UInt8) (d : Directive) (rest : List UInt8)
    (args : List UInt32) {field : List UInt8} (h : d.printf args = some field) :
    unlimitedText strings (d.format ++ rest) args =
        field ++ unlimitedText strings rest (d.numberArgs args).tail ↔
      d.Agrees args := by
  obtain ⟨hlt, rfl⟩ : (d.field args).length < 2 ^ 31 ∧ d.field args = field := by
    unfold Directive.printf at h
    split at h
    · next hlt => exact ⟨hlt, Option.some.inj h⟩
    · cases h
  obtain ⟨hwidthlt, hprecisionlt⟩ := Directive.lt_of_length_field hlt
  have hwidth := Directive.toInt_widthVar hwidthlt
  have hprecision := Directive.toInt_precisionVar hprecisionlt
  have hle : -1 ≤ d.widthGiven args ∧ (d.widthGiven args).toNat = d.fieldWidth args := by
    unfold Directive.widthGiven Directive.fieldWidth Directive.widthArg
    cases d.width <;> dsimp only <;> omega
  rw [← hwidth] at hle
  have hsize := Directive.sizeFits_iff hwidth (hwidth ▸ hle.1) hprecision
  rw [Directive.unlimitedText_format, append_left_inj]
  unfold Directive.Agrees
  by_cases hfits : d.SizeFits args
  · rw [Directive.text_eq_iff hle.1 hle.2 (hsize.2 hfits)]
    have hzero := d.significant_eq_nil args
    by_cases hdigits : d.base = 8 → d.magnitude args < 8
    · have hsame := (d.codeNumeral_eq_iff args).2 hdigits
      have hnil : (if (d.precisionVar args).toInt = 0 then [] else d.codeNumeral args) =
          d.significant args ↔ ((d.precisionVar args).toInt = 0 → d.value args = 0) := by
        rw [hsame]
        split
        · next h => rw [← hzero, length_eq_zero_iff, eq_comm, forall_prop_of_true h]
        · next h => simp only [h, false_imp_iff]
      rw [hnil, and_iff_right hdigits, and_iff_left hfits]
      by_cases halt : d.base = 8 ∧ .hash ∈ d.flags
      · have hhex : d.codePrefix = d.hexPrefix args :=
          (d.codePrefix_eq_iff args).2 fun h => by omega
        rw [if_pos halt, and_iff_right hhex]
        exact Directive.parts_octal halt.1 halt.2 (hdigits halt.1) hprecision
      · rw [if_neg halt]
        exact (and_congr_right fun hhex => Directive.parts_plain halt hsame hhex hprecision).trans
          (and_iff_right_of_imp fun h => (d.codePrefix_eq_iff args).2 h.1)
    · refine iff_of_false (fun h => hdigits ?_) (fun h => hdigits h.1)
      have hsame := h.2.1
      split at hsame
      · have hvalue : d.value args = 0 := hzero.1 (hsame ▸ rfl)
        intro _
        unfold Directive.magnitude
        omega
      · exact (d.codeNumeral_eq_iff args).1 hsame
  · -- the field is longer than that of `printf`
    refine iff_of_false (fun he => ?_) (fun h => hfits h.2.2)
    have hlong := Directive.le_length_text hle.1 (lt_of_not_ge (mt hsize.1 hfits))
    rw [he] at hlong
    omega

end

/-- The field `  +42` of `%+5d`. -/
theorem Directive.agrees_plus :
    @Directive.Agrees ⟨false⟩ ⟨[.plus], .number 4 [], .absent, .int, .d⟩ [42] :=
  (@Directive.field_eq_iff ⟨false⟩ (fun _ => []) ⟨[.plus], .number 4 [], .absent, .int, .d⟩ []
    [42] ("  +42".toList.map chr) (by decide)).1 (by decide)

/-- The field of `%o` for eight is `8`. -/
theorem Directive.not_field_eq_octal :
    Directive.printf ⟨[], .absent, .absent, .int, .o⟩ [8] = some ("10".toList.map chr) ∧
      @unlimitedText ⟨false⟩ (fun _ => [])
        (Directive.format ⟨[], .absent, .absent, .int, .o⟩ ++ []) [8] ≠
        "10".toList.map chr ++ @unlimitedText ⟨false⟩ (fun _ => []) []
          (Directive.numberArgs ⟨[], .absent, .absent, .int, .o⟩ [8]).tail := by
  decide

end RtThread
