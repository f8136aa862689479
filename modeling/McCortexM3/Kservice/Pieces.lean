import McCortexM3.Kservice.Vsnprintf

/-!
# What a format writes

`rt_vsnprintf` writes the same characters to every buffer, except behind the sign of a number: there
the count of the characters that fill the field is less by one only if the sign is stored.  So each
conversion is a list of pieces, which the format and the arguments determine.

## Main definitions

* `bodyChars`, `numberPieces` — the field of a number.
* `formatPieces` — all that a format writes.

## Main results

* `printNumber_eq`, `formatLoop_eq` — the functions write the pieces.
* `signPieces_longer` — how the two continuations behind a sign differ.
* `length_formatPieces` — there are no more pieces than characters of the format.
-/

set_option linter.all false

namespace RtThread

open List Nat CharSink

section

variable [PrintfConfig] {σ : Type} [CharSink UInt8 σ]

/-- The characters that `print_number` writes from the special prefix on. -/
def bodyChars (type : PrintfFlags) (base : UInt8) (tmp : List UInt8)
    (precision precisionBak size : Int32) : List UInt8 :=
  specialPrefix type base ++
    ((if type.left then [] else
        List.replicate size.toInt.toNat (if type.zeropad then chr '0' else chr ' ')) ++
      (List.replicate (precision.toInt - tmp.length).toNat (chr '0') ++
        ((if precisionBak ≠ 0 then tmp.reverse else []) ++
          List.replicate (if type.left then size else if 0 < size then -1 else size - 1).toInt.toNat
            (chr ' '))))

/-- The characters in front of the sign. -/
def leadChars (type : PrintfFlags) (sign : Option UInt8) (size : Int32) : List UInt8 :=
  if type.zeropad || type.left then []
  else List.replicate (if sign.isSome ∧ 0 < size then size - 1 else size).toInt.toNat (chr ' ')

/-- The variable `size` at the sign. -/
def signSize (type : PrintfFlags) (sign : Option UInt8) (size : Int32) : Int32 :=
  if type.zeropad || type.left then size
  else
    let size := if sign.isSome ∧ 0 < size then size - 1 else size
    if 0 < size then -1 else size - 1

/-- What `print_number` writes from the sign on. -/
def signPieces (type : PrintfFlags) (base : UInt8) (tmp : List UInt8)
    (precision precisionBak : Int32) (sign : Option UInt8) (size : Int32) : List (Piece UInt8) :=
  match sign with
  | none => [.chars (bodyChars type base tmp precision precisionBak size)]
  | some c => [.choice c (bodyChars type base tmp precision precisionBak (size - 1))
      (bodyChars type base tmp precision precisionBak size)]

/-- What `print_number` writes. -/
def numberPieces (num : Int32) (base : UInt8) (s precision : Int32) (type : PrintfFlags) :
    List (Piece UInt8) :=
  let type := { type with zeropad := type.zeropad && !type.left }
  let sign := signChar type num
  let num := if type.sign ∧ num < 0 then -num else num
  let tmp := tmpDigits type.large base num.toUInt32
  let precisionBak := precision
  let precision := if .ofNat tmp.length > precision then .ofNat tmp.length else precision
  let size := fillSize type base s precision
  .chars (leadChars type sign size) ::
    signPieces type base tmp precision precisionBak sign (signSize type sign size)

/-- What a conversion writes. -/
def convertPieces (strings : UInt32 → List UInt8) (spec : PrintfSpec) (ch : UInt8)
    (args : List UInt32) : List (Piece UInt8) :=
  match integerConversion spec.flags ch with
  | some (base, flags) =>
    numberPieces (integerArg spec.qualifier flags.sign (vaArg args).1).toInt32 base spec.fieldWidth
      spec.precision flags
  | none => [.chars (convertOther strings spec ch args ([] : List UInt8)).1]

/-- What the loop over the format writes. -/
def loopPieces (strings : UInt32 → List UInt8) : ℕ → List UInt8 → List UInt32 → List (Piece UInt8)
  | 0, _, _ => []
  | _ + 1, [], _ => []
  | fuel + 1, c :: fmt, args =>
    if c = chr '%' then
      match getSpec fmt args with
      | (_, [], _) => [.chars [chr '%']]
      | (spec, ch :: fmt, args) =>
        convertPieces strings spec ch args ++
          loopPieces strings fuel fmt (convert strings spec ch args ([] : List UInt8)).2
    else .chars [c] :: loopPieces strings fuel fmt args

/-- All that a format writes. -/
def formatPieces (strings : UInt32 → List UInt8) (fmt : List UInt8) (args : List UInt32) :
    List (Piece UInt8) :=
  loopPieces strings fmt.length fmt args

/-! ### The functions write the pieces -/

theorem printBody_eq (type : PrintfFlags) (base : UInt8) (tmp : List UInt8)
    (precision precisionBak size : Int32) (buf : σ) :
    printBody type base tmp precision precisionBak size buf =
      puts (bodyChars type base tmp precision precisionBak size) buf := by
  unfold printBody bodyChars spin
  cases type.left <;> by_cases hbak : precisionBak ≠ 0 <;> simp [hbak, puts_append]

theorem printLead_eq (type : PrintfFlags) (sign : Option UInt8) (size : Int32) (buf : σ) :
    printLead type sign size buf =
      (puts (leadChars type sign size) buf, signSize type sign size) := by
  unfold printLead leadChars signSize
  split <;> rfl

theorem printSign_eq (type : PrintfFlags) (base : UInt8) (tmp : List UInt8)
    (precision precisionBak : Int32) (sign : Option UInt8) (size : Int32) (buf : σ) :
    printSign type base tmp precision precisionBak sign size buf =
      writeAll (signPieces type base tmp precision precisionBak sign size) buf := by
  unfold printSign signPieces
  cases sign with
  | none =>
    dsimp only
    rw [printBody_eq]
    rfl
  | some c =>
    dsimp only
    rw [printBody_eq, writeAll_cons, writeAll_nil, Piece.write, Piece.chosen, puts_cons]
    split <;> rfl

/-- **`print_number`** writes its pieces. -/
theorem printNumber_eq (num : Int32) (base : UInt8) (s precision : Int32) (type : PrintfFlags)
    (buf : σ) :
    printNumber num base s precision type buf =
      writeAll (numberPieces num base s precision type) buf := by
  unfold printNumber numberPieces
  dsimp only
  rw [printLead_eq, printSign_eq]
  rfl

theorem printNumber_unsigned (num : Int32) (base : UInt8) (s precision : Int32)
    (type : PrintfFlags) (htype : type.sign = false) (buf : σ) :
    printNumber num base s precision type buf =
      puts (printNumber num base s precision type ([] : List UInt8)) buf := by
  have hsign : signChar { type with zeropad := type.zeropad && !type.left } num = none := by
    unfold signChar
    rw [htype]
    rfl
  rw [printNumber_eq, printNumber_eq]
  unfold numberPieces signPieces
  dsimp only
  rw [hsign, writeAll_list]
  simp [Piece.write, Piece.chosen, Piece.text, puts_append]

theorem getFlags_sign (flags : PrintfFlags) (fmt : List UInt8) :
    (getFlags flags fmt).1.sign = flags.sign := by
  induction fmt generalizing flags with
  | nil => rfl
  | cons c fmt ih =>
    unfold getFlags
    split_ifs <;> first | rfl | rw [ih]

theorem getSpec_sign (fmt : List UInt8) (args : List UInt32) :
    (getSpec fmt args).1.flags.sign = false := by
  have hflags := getFlags_sign .none fmt
  unfold getSpec getWidth
  dsimp only
  generalize getFlags .none fmt = r at hflags ⊢
  obtain ⟨flags, fmt⟩ := r
  cases fmt with
  | nil => exact hflags
  | cons c fmt =>
    dsimp only
    split_ifs <;> exact hflags

theorem convertChar_eq (spec : PrintfSpec) (arg : UInt32) (str : σ) :
    convertChar spec arg str = puts (convertChar spec arg ([] : List UInt8)) str := by
  unfold convertChar spinPre
  cases spec.flags.left <;> simp [puts_append, CharSink.put]

theorem convertString_eq (spec : PrintfSpec) (s : List UInt8) (str : σ) :
    convertString spec s str = puts (convertString spec s ([] : List UInt8)) str := by
  unfold convertString spinAbove
  cases spec.flags.left <;> simp [puts_append]

theorem convertPointer_eq (spec : PrintfSpec) (arg : UInt32) (hsign : spec.flags.sign = false)
    (str : σ) :
    convertPointer spec arg str = puts (convertPointer spec arg ([] : List UInt8)) str := by
  unfold convertPointer
  split
  · exact printNumber_unsigned _ _ _ _ { spec.flags with zeropad := true } hsign str
  · exact printNumber_unsigned _ _ _ _ _ hsign str

theorem convertOther_eq (strings : UInt32 → List UInt8) (spec : PrintfSpec) (ch : UInt8)
    (args : List UInt32) (hsign : spec.flags.sign = false) (str : σ) :
    convertOther strings spec ch args str =
      (puts (convertOther strings spec ch args ([] : List UInt8)).1 str,
        (convertOther strings spec ch args ([] : List UInt8)).2) := by
  unfold convertOther
  dsimp only
  generalize (if (vaArg args).1 = 0 then nullString else strings (vaArg args).1) = s
  split_ifs
  · rw [convertChar_eq]
  · rw [convertString_eq]
  · rw [convertPointer_eq spec _ hsign]
  · rfl
  · rfl

theorem convert_eq (strings : UInt32 → List UInt8) (spec : PrintfSpec) (ch : UInt8)
    (args : List UInt32) (hsign : spec.flags.sign = false) (str : σ) :
    convert strings spec ch args str =
      (writeAll (convertPieces strings spec ch args) str,
        (convert strings spec ch args ([] : List UInt8)).2) := by
  unfold convert convertPieces
  cases integerConversion spec.flags ch with
  | none =>
    dsimp only
    rw [convertOther_eq _ _ _ _ hsign]
    rfl
  | some r =>
    dsimp only
    rw [printNumber_eq]

/-- **The loop** writes its pieces. -/
theorem formatLoop_eq (strings : UInt32 → List UInt8) (fuel : ℕ) (fmt : List UInt8)
    (args : List UInt32) (str : σ) :
    formatLoop strings fuel fmt args str = writeAll (loopPieces strings fuel fmt args) str := by
  induction fuel generalizing fmt args str with
  | zero => rfl
  | succ fuel ih =>
    cases fmt with
    | nil => rfl
    | cons c fmt =>
      unfold formatLoop loopPieces
      split
      · have hsign := getSpec_sign fmt args
        generalize getSpec fmt args = r at hsign ⊢
        obtain ⟨spec, fmt, args⟩ := r
        cases fmt with
        | nil => rfl
        | cons ch fmt =>
          dsimp only at hsign ⊢
          rw [convert_eq strings spec ch args hsign str, writeAll_append]
          exact ih _ _ _
      · rw [ih]
        rfl

theorem unlimitedText_eq (strings : UInt32 → List UInt8) (fmt : List UInt8) (args : List UInt32) :
    unlimitedText strings fmt args = text (formatPieces strings fmt args) := by
  rw [unlimitedText, formatLoop_eq, writeAll_list]
  rfl

/-! ### The continuations behind a sign -/

theorem toInt_sub_one (n : Int32) :
    (n - 1).toInt = if n.toInt = -2 ^ 31 then 2 ^ 31 - 1 else n.toInt - 1 := by
  have hlo := Int32.le_toInt n
  have hhi := Int32.toInt_lt n
  have hone : (1 : Int32).toInt = 1 := rfl
  rw [Int32.toInt_sub, hone]
  split
  · next h =>
    rw [h]
    rfl
  · exact Int.bmod_eq_of_le (by omega) (by omega)

theorem length_bodyChars (type : PrintfFlags) (base : UInt8) (tmp : List UInt8)
    (precision precisionBak size : Int32) :
    (bodyChars type base tmp precision precisionBak size).length =
      (specialPrefix type base).length + (precision.toInt - tmp.length).toNat +
        (if precisionBak ≠ 0 then tmp.length else 0) +
        if type.left then size.toInt.toNat
        else size.toInt.toNat + (if 0 < size then -1 else size - 1).toInt.toNat := by
  have hbak : (if precisionBak ≠ 0 then tmp.reverse else []).length =
      if precisionBak ≠ 0 then tmp.length else 0 := by
    split
    · exact length_reverse
    · rfl
  unfold bodyChars
  cases type.left <;>
    simp only [hbak, if_true, if_false, length_append, length_replicate,
      length_nil, Bool.false_eq_true] <;> omega

/-- Unless the characters are more than an `int` can count, the continuation of a sign that is not
stored is the longer one, by at most one character. -/
theorem signPieces_longer (type : PrintfFlags) (base : UInt8) (tmp : List UInt8)
    (precision precisionBak : Int32) (sign : Option UInt8) (size : Int32) :
    ∀ p ∈ signPieces type base tmp precision precisionBak sign size,
      p.text.length < 2 ^ 31 → p.Longer := by
  intro p hp hlt
  cases sign with
  | none =>
    rw [mem_singleton.1 hp]
    trivial
  | some c =>
    obtain rfl := mem_singleton.1 hp
    have hlo := Int32.le_toInt size
    have hpred := toInt_sub_one size
    have hpred' := toInt_sub_one (size - 1)
    have hneg : (-1 : Int32).toInt = -1 := rfl
    have hpos : 0 < size ↔ 0 < size.toInt := Int32.lt_iff_toInt_lt
    have hpos' : 0 < size - 1 ↔ 0 < (size - 1).toInt := Int32.lt_iff_toInt_lt
    rw [Piece.text, length_cons] at hlt
    rw [Piece.Longer]
    rw [length_bodyChars] at hlt ⊢
    rw [length_bodyChars]
    cases hleft : type.left with
    | false =>
      simp only [hleft, Bool.false_eq_true, if_false, hpos, hpos'] at hlt ⊢
      split_ifs at * <;> omega
    | true =>
      simp only [hleft, if_true] at hlt ⊢
      split_ifs at * <;> omega

theorem longer_of_length {ps : List (Piece UInt8)} (hlt : (text ps).length < 2 ^ 31)
    (h : ∀ p ∈ ps, p.text.length < 2 ^ 31 → p.Longer) : ∀ p ∈ ps, p.Longer := by
  intro p hp
  obtain ⟨ps₁, ps₂, rfl⟩ := append_of_mem hp
  rw [text_append, text_cons, length_append, length_append] at hlt
  exact h p hp (by omega)

theorem convertPieces_longer (strings : UInt32 → List UInt8) (spec : PrintfSpec) (ch : UInt8)
    (args : List UInt32) :
    ∀ p ∈ convertPieces strings spec ch args, p.text.length < 2 ^ 31 → p.Longer := by
  intro p hp
  unfold convertPieces at hp
  split at hp
  · unfold numberPieces at hp
    rcases mem_cons.1 hp with rfl | hp
    · exact fun _ => trivial
    · exact signPieces_longer _ _ _ _ _ _ _ p hp
  · rw [mem_singleton.1 hp]
    exact fun _ => trivial

theorem loopPieces_longer (strings : UInt32 → List UInt8) (fuel : ℕ) (fmt : List UInt8)
    (args : List UInt32) :
    ∀ p ∈ loopPieces strings fuel fmt args, p.text.length < 2 ^ 31 → p.Longer := by
  induction fuel generalizing fmt args with
  | zero => exact fun p hp => absurd hp not_mem_nil
  | succ fuel ih =>
    cases fmt with
    | nil => exact fun p hp => absurd hp not_mem_nil
    | cons c fmt =>
      intro p hp
      unfold loopPieces at hp
      split at hp
      · generalize getSpec fmt args = r at hp
        obtain ⟨spec, fmt, args⟩ := r
        cases fmt with
        | nil =>
          rw [mem_singleton.1 hp]
          exact fun _ => trivial
        | cons ch fmt =>
          rcases mem_append.1 hp with hp | hp
          · exact convertPieces_longer strings spec ch args p hp
          · exact ih _ _ p hp
      · rcases mem_cons.1 hp with rfl | hp
        · exact fun _ => trivial
        · exact ih _ _ p hp

/-! ### The number of pieces -/

theorem length_convertPieces (strings : UInt32 → List UInt8) (spec : PrintfSpec) (ch : UInt8)
    (args : List UInt32) : (convertPieces strings spec ch args).length ≤ 2 := by
  unfold convertPieces
  split
  · unfold numberPieces
    dsimp only
    rw [length_cons]
    refine succ_le_succ ?_
    unfold signPieces
    split <;> exact le_rfl
  · exact le_succ 1

theorem length_skipAtoi (i : Int32) (fmt : List UInt8) :
    (skipAtoi i fmt).2.length ≤ fmt.length := by
  induction fmt generalizing i with
  | nil => exact le_rfl
  | cons c fmt ih =>
    unfold skipAtoi
    split
    · exact (ih _).trans (le_succ _)
    · exact le_rfl

theorem length_getFlags (flags : PrintfFlags) (fmt : List UInt8) :
    (getFlags flags fmt).2.length ≤ fmt.length := by
  induction fmt generalizing flags with
  | nil => exact le_rfl
  | cons c fmt ih =>
    unfold getFlags
    split_ifs <;> first | exact (ih _).trans (le_succ _) | exact le_rfl

theorem length_getWidth (flags : PrintfFlags) (fmt : List UInt8) (args : List UInt32) :
    (getWidth flags fmt args).2.2.1.length ≤ fmt.length := by
  unfold getWidth
  cases fmt with
  | nil => exact le_rfl
  | cons c rest =>
    dsimp only
    split_ifs
    · exact length_skipAtoi 0 (c :: rest)
    · exact le_succ _
    · exact le_succ _
    · exact le_rfl

theorem length_getPrecision (fmt : List UInt8) (args : List UInt32) :
    (getPrecision fmt args).2.1.length ≤ fmt.length := by
  have hpoint : ∀ rest : List UInt8, (getPoint rest args).2.1.length ≤ rest.length := by
    intro rest
    unfold getPoint
    cases rest with
    | nil => exact le_rfl
    | cons c rest =>
      dsimp only
      split_ifs
      · exact length_skipAtoi 0 (c :: rest)
      · exact le_succ _
      · exact le_rfl
  unfold getPrecision
  cases fmt with
  | nil => exact le_rfl
  | cons c rest =>
    dsimp only
    split_ifs
    · exact (hpoint rest).trans (le_succ _)
    · exact (hpoint rest).trans (le_succ _)
    · exact le_rfl

theorem length_getSpec (fmt : List UInt8) (args : List UInt32) :
    (getSpec fmt args).2.1.length ≤ fmt.length := by
  have hqualifier : ∀ fmt, (getQualifier fmt).2.length ≤ fmt.length := by
    intro fmt
    unfold getQualifier
    cases fmt with
    | nil => exact le_rfl
    | cons c rest =>
      dsimp only
      split_ifs
      · exact le_succ _
      · exact le_rfl
  unfold getSpec
  exact (hqualifier _).trans ((length_getPrecision _ _).trans
    ((length_getWidth _ _ _).trans (length_getFlags _ _)))

theorem length_loopPieces (strings : UInt32 → List UInt8) (fuel : ℕ) (fmt : List UInt8)
    (args : List UInt32) : (loopPieces strings fuel fmt args).length ≤ fmt.length := by
  induction fuel generalizing fmt args with
  | zero => exact Nat.zero_le _
  | succ fuel ih =>
    cases fmt with
    | nil => exact le_rfl
    | cons c fmt =>
      unfold loopPieces
      split
      · have hlength := length_getSpec fmt args
        generalize getSpec fmt args = r at hlength ⊢
        obtain ⟨spec, fmt', args⟩ := r
        cases fmt' with
        | nil => exact succ_le_succ (Nat.zero_le _)
        | cons ch fmt' =>
          have hpieces := length_convertPieces strings spec ch args
          have hrest := ih fmt' (convert strings spec ch args ([] : List UInt8)).2
          dsimp only at hlength ⊢
          rw [length_append, length_cons]
          rw [length_cons] at hlength
          omega
      · exact succ_le_succ (ih _ _)

/-- **There are no more pieces than characters of the format.** -/
theorem length_formatPieces (strings : UInt32 → List UInt8) (fmt : List UInt8)
    (args : List UInt32) : (formatPieces strings fmt args).length ≤ fmt.length :=
  length_loopPieces strings _ fmt args

theorem formatLoop_fuel {σ : Type} [CharSink UInt8 σ] (strings : UInt32 → List UInt8) {fuel : ℕ}
    (fmt : List UInt8) (hfuel : fmt.length ≤ fuel) (args : List UInt32) (str : σ) :
    formatLoop strings fuel fmt args str = formatLoop strings fmt.length fmt args str := by
  induction fuel using Nat.strong_induction_on generalizing fmt args str with
  | _ fuel ih =>
    cases fmt with
    | nil => cases fuel <;> rfl
    | cons c fmt =>
      obtain ⟨fuel, rfl⟩ : ∃ n, fuel = n + 1 := by
        cases fuel with
        | zero => exact absurd hfuel (not_succ_le_zero _)
        | succ n => exact ⟨n, rfl⟩
      have hle : fmt.length ≤ fuel := le_of_succ_le_succ hfuel
      rw [length_cons]
      unfold formatLoop
      split
      · have hlength := length_getSpec fmt args
        generalize getSpec fmt args = r at hlength ⊢
        obtain ⟨spec, fmt', args⟩ := r
        cases fmt' with
        | nil => rfl
        | cons ch fmt' =>
          dsimp only at hlength ⊢
          rw [length_cons] at hlength
          rw [ih fuel (lt_succ_self _) fmt' (by omega)]
          rcases Nat.lt_or_ge fmt.length fuel with hlt | hge
          · rw [ih fmt.length (by omega) fmt' (by omega)]
          · rw [ih fmt.length (by omega) fmt' (by omega)]
      · rw [ih fuel (lt_succ_self _) fmt hle]

end

end RtThread
