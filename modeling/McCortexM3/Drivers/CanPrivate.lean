import McCortexM3.Drivers.CanTx

/-!
# Sending over CAN in private mode

`_can_int_tx_priv` of `can.c`, with the interrupts of `rt_hw_can_isr` for boxes and the sections of
`rt_completion_wait`.  Every message names its box; a writer takes the box by setting its `result`
from `RT_CAN_SND_RESULT_OK` to `RT_CAN_SND_RESULT_WAIT`, and waits for the completion of the box when
it finds another value.

A failed transmission leaves `RT_CAN_SND_RESULT_ERR`, and a refused one `RT_CAN_SND_RESULT_WAIT`:
the next writer of the box waits although nothing is outstanding.

## Main definitions

* `CanPriv.TestsFree` — a writer that tests a box finds it free.
* `CanPriv.WaitsOutstanding` — a writer waits only while a transmission is outstanding.

## Main results

* `CanPriv.run_waitsOutstanding` — so it is in every run in which the tested boxes are free.
-/

set_option linter.all false

namespace RtThread

open Function Option

/-- The variables of `_can_int_tx_priv`, with the field `priv` of the messages in its buffer. -/
structure PrivWrite where
  size : BitVec 32
  msgs : BitVec 32
  data : ℕ
  priv : ℕ → BitVec 8

/-- Where a writer is: in no `rt_can_write`, before the section that tests a box, before `sendmsg`,
before `rt_completion_wait`, in the list of the completion, before the section at the end of
`rt_completion_wait` (for its own transmission, or for that of another writer), and before it reads
the result. -/
inductive PrivPc
  | outside
  | testing (w : PrivWrite)
  | sending (w : PrivWrite) (no : ℕ)
  | waiting (w : PrivWrite) (no : ℕ) (own : Bool)
  | blocked (w : PrivWrite) (no : ℕ) (own : Bool)
  | woken (w : PrivWrite) (no : ℕ) (own : Bool)
  | collecting (w : PrivWrite) (no : ℕ)

/-- What can happen next: a thread writes, a writer goes on (`sendOk` says whether `sendmsg`
succeeds), and the interrupt of a box. -/
inductive PrivAction (Tid : Type)
  | write (t : Tid) (size : BitVec 32) (priv : ℕ → BitVec 8)
  | go (t : Tid) (sendOk : Bool)
  | isr (no : ℕ) (done : Bool)

/-- The boxes, and the writers. -/
structure CanPriv (Tid : Type) where
  box : ℕ → SndBox Tid
  pc : Tid → PrivPc

namespace CanPriv

variable {Tid : Type} [DecidableEq Tid]

/-- The place of the writer becomes `pc`. -/
def goto (s : CanPriv Tid) (t : Tid) (pc : PrivPc) : CanPriv Tid :=
  { s with pc := Function.update s.pc t pc }

/-- The box becomes `b`. -/
def setBox (s : CanPriv Tid) (no : ℕ) (b : SndBox Tid) : CanPriv Tid :=
  { s with box := Function.update s.box no b }

/-- `break` and `return`. -/
def ret (s : CanPriv Tid) (t : Tid) (w : PrivWrite) : CanPriv Tid × List (CanEvent Tid) :=
  (s.goto t .outside, [.returned t w.size (w.size - w.msgs)])

/-- The section that tests a box, of the `sndboxnumber` ones. -/
def test (sndboxnumber : ℕ) (s : CanPriv Tid) (t : Tid) (w : PrivWrite) :
    CanPriv Tid × List (CanEvent Tid) :=
  let no := (w.priv w.data).toNat
  if no ≥ sndboxnumber then s.ret t w
  else if (s.box no).result ≠ .ok then (s.goto t (.waiting w no false), [])
  else ((s.setBox no { s.box no with result := .wait }).goto t (.sending w no), [])

/-- `sendmsg`. -/
def sendmsg (s : CanPriv Tid) (t : Tid) (w : PrivWrite) (no : ℕ) (sendOk : Bool) :
    CanPriv Tid × List (CanEvent Tid) :=
  if sendOk = true then
    ((s.setBox no { s.box no with transmitting := true }).goto t (.waiting w no true),
      [.sent t w.data no])
  else (s.goto t (.testing w), [])

/-- Where `rt_completion_wait` returns to. -/
def afterWait (w : PrivWrite) (no : ℕ) (own : Bool) : PrivPc :=
  if own = true then .collecting w no else .testing w

/-- The first section of `rt_completion_wait`; `none` for a failed `RT_ASSERT`. -/
def completionWait (s : CanPriv Tid) (t : Tid) (w : PrivWrite) (no : ℕ) (own : Bool) :
    Option (CanPriv Tid) :=
  if (s.box no).completed = true then
    some ((s.setBox no { s.box no with completed := false }).goto t (afterWait w no own))
  else if (s.box no).suspendedList ≠ [] then none
  else some ((s.setBox no { s.box no with suspendedList := [t] }).goto t (.blocked w no own))

/-- The end of a round. -/
def collect (s : CanPriv Tid) (t : Tid) (w : PrivWrite) :
    SndResult → CanPriv Tid × List (CanEvent Tid)
  | .ok =>
    let w := { w with data := w.data + 1, msgs := w.msgs - BitVec.ofNat 32 canMsgSize }
    if w.msgs = 0 then s.ret t w else (s.goto t (.testing w), [])
  | _ => s.ret t w

/-- A writer goes on. -/
def go (sndboxnumber : ℕ) (s : CanPriv Tid) (t : Tid) (sendOk : Bool) :
    PrivPc → Option (CanPriv Tid × List (CanEvent Tid))
  | .outside | .blocked _ _ _ => none
  | .testing w => some (s.test sndboxnumber t w)
  | .sending w no => some (s.sendmsg t w no sendOk)
  | .waiting w no own => (s.completionWait t w no own).map fun s => (s, [])
  | .woken w no own =>
    some ((s.setBox no { s.box no with completed := false }).goto t (afterWait w no own), [])
  | .collecting w no => some (s.collect t w (s.box no).result)

/-- The place of a thread that has been resumed from the list that it is in. -/
def resumed : PrivPc → PrivPc
  | .blocked w no own => .woken w no own
  | pc => pc

/-- `rt_completion_done`. -/
def completionDone (s : CanPriv Tid) (no : ℕ) : CanPriv Tid :=
  if (s.box no).completed = true then s
  else
    match (s.box no).suspendedList with
    | u :: rest =>
      (s.setBox no { s.box no with completed := true, suspendedList := rest }).goto u
        (resumed (s.pc u))
    | [] => s.setBox no { s.box no with completed := true }

/-- `rt_hw_can_isr` with `RT_CAN_EVENT_TX_DONE` or `RT_CAN_EVENT_TX_FAIL`. -/
def hwCanIsr (s : CanPriv Tid) (no : ℕ) (done : Bool) : CanPriv Tid :=
  (s.setBox no { s.box no with
    result := if done = true then .ok else .err, transmitting := false }).completionDone no

/-- `rt_can_write`. -/
def write (s : CanPriv Tid) (t : Tid) (size : BitVec 32) (priv : ℕ → BitVec 8) :
    PrivPc → Option (CanPriv Tid × List (CanEvent Tid))
  | .outside =>
    if size = 0 then some (s, [.returned t 0 0])
    else some (s.goto t (.testing ⟨size, size, 0, priv⟩), [])
  | _ => none

/-- One step of an interleaving. -/
def step (sndboxnumber : ℕ) (s : CanPriv Tid) :
    PrivAction Tid → Option (CanPriv Tid × List (CanEvent Tid))
  | .write t size priv => s.write t size priv (s.pc t)
  | .go t sendOk => s.go sndboxnumber t sendOk (s.pc t)
  | .isr no done => some (s.hwCanIsr no done, [.reported no done])

/-- `rt_can_open`. -/
def boot : CanPriv Tid := ⟨fun _ => ⟨.ok, false, [], false⟩, fun _ => .outside⟩

/-- The writer waits for the completion of a box only while a transmission is outstanding in it. -/
def WaitsOutstanding (s : CanPriv Tid) : Prop :=
  ∀ t w no own, s.pc t = .blocked w no own → (s.box no).transmitting = true

/-- The box that a writer has taken, up to the end of its `rt_completion_wait`. -/
def boxOf : PrivPc → Option ℕ
  | .sending _ no | .waiting _ no _ | .blocked _ no _ | .woken _ no _ => some no
  | _ => none

/-- A writer that tests a box finds `RT_CAN_SND_RESULT_OK`, and no other writer has the box. -/
def TestFree (sndboxnumber : ℕ) (s : CanPriv Tid) : PrivPc → Prop
  | .testing w => (w.priv w.data).toNat < sndboxnumber →
      (s.box (w.priv w.data).toNat).result = .ok ∧ ∀ u, boxOf (s.pc u) ≠ some (w.priv w.data).toNat
  | _ => True

@[inherit_doc TestFree] def TestsFree (sndboxnumber : ℕ) (s : CanPriv Tid) : PrivAction Tid → Prop
  | .go t _ => s.TestFree sndboxnumber (s.pc t)
  | _ => True

/-! ### The invariant -/

/-- What a place says about the box. -/
def Holds (s : CanPriv Tid) (t : Tid) : PrivPc → Prop
  | .sending _ no => (s.box no).suspendedList = []
  | .waiting _ no own => own = true ∧ (s.box no).suspendedList = [] ∧
      ((s.box no).transmitting = true ∨ (s.box no).completed = true)
  | .blocked _ no own => own = true ∧ (s.box no).suspendedList = [t] ∧
      (s.box no).transmitting = true ∧ (s.box no).completed = false
  | .woken _ no own => own = true ∧ (s.box no).suspendedList = []
  | _ => True

/-- A box has one writer at most, and is as the writer's place says; the list of a box without a
writer is empty. -/
structure Inv (s : CanPriv Tid) : Prop where
  alone : ∀ t u no, boxOf (s.pc t) = some no → boxOf (s.pc u) = some no → t = u
  holds : ∀ t, Holds s t (s.pc t)
  unlisted : ∀ no, (∀ t, boxOf (s.pc t) ≠ some no) → (s.box no).suspendedList = []

variable {s : CanPriv Tid} {t u : Tid} {pc : PrivPc} {no : ℕ}

theorem holds_congr {s' : CanPriv Tid} (h : ∀ no, boxOf pc = some no → s'.box no = s.box no) :
    Holds s' t pc ↔ Holds s t pc := by
  cases pc with
  | outside | testing w | collecting w no => exact Iff.rfl
  | sending w no | waiting w no own | blocked w no own | woken w no own =>
    rw [Holds, Holds, h no rfl]

/-- **The frame of a box**: what changes one box and the place of one writer keeps the invariant, if
the writer has that box, or no writer has and the lists stay as they should. -/
theorem Inv.goto_setBox (hs : s.Inv) {b : SndBox Tid}
    (hother : ∀ u ≠ t, boxOf (s.pc u) ≠ some no)
    (hbox : boxOf pc = some no ∨ boxOf pc = none)
    (hholds : Holds ((s.setBox no b).goto t pc) t pc)
    (hown : ∀ no', boxOf (s.pc t) = some no' → no' = no)
    (hlist : boxOf pc = none → b.suspendedList = []) :
    ((s.setBox no b).goto t pc).Inv := by
  have hpc : ∀ u no', u ≠ t → boxOf (s.pc u) = some no' → no' ≠ no := by
    rintro u no' hu hno' rfl
    exact hother u hu hno'
  refine ⟨fun u v no' hu hv => ?_, fun u => ?_, fun no' hno => ?_⟩
  · by_cases hut : u = t <;> by_cases hvt : v = t
    · rw [hut, hvt]
    · subst hut
      simp only [goto, setBox, update_self, update_of_ne hvt] at hu hv
      rcases hbox with h | h
      · obtain rfl : no = no' := some.inj (h.symm.trans hu)
        exact absurd hv (hother v hvt)
      · rw [h] at hu
        cases hu
    · subst hvt
      simp only [goto, setBox, update_self, update_of_ne hut] at hu hv
      rcases hbox with h | h
      · obtain rfl : no = no' := some.inj (h.symm.trans hv)
        exact absurd hu (hother u hut)
      · rw [h] at hv
        cases hv
    · simp only [goto, setBox, update_of_ne hut, update_of_ne hvt] at hu hv
      exact hs.alone u v no' hu hv
  · by_cases hut : u = t
    · subst hut
      simpa only [goto, update_self] using hholds
    · have hplace : ((s.setBox no b).goto t pc).pc u = s.pc u := update_of_ne hut ..
      rw [hplace]
      refine (holds_congr fun no' hno' => ?_).2 (hs.holds u)
      exact update_of_ne (hpc u no' hut hno') ..
  · have ht := hno t
    simp only [goto, update_self] at ht
    by_cases hno' : no' = no
    · subst hno'
      have hnone : boxOf pc = none := hbox.resolve_left ht
      simpa only [goto, setBox, update_self] using hlist hnone
    · simp only [goto, setBox, update_of_ne hno']
      refine hs.unlisted no' fun u hu => ?_
      by_cases hut : u = t
      · subst hut
        exact hno' (hown no' hu)
      · have := hno u
        simp only [goto, setBox, update_of_ne hut] at this
        exact this hu

theorem Inv.goto (hs : s.Inv) (hbox : boxOf pc = none ∨ boxOf pc = boxOf (s.pc t))
    (hholds : Holds s t (s.pc t) → Holds s t pc)
    (hlist : boxOf pc = none → ∀ no, boxOf (s.pc t) = some no → (s.box no).suspendedList = []) :
    (s.goto t pc).Inv := by
  have hof : ∀ u no, boxOf ((s.goto t pc).pc u) = some no → boxOf (s.pc u) = some no := by
    intro u no hu
    by_cases hut : u = t
    · subst hut
      simp only [CanPriv.goto, update_self] at hu
      rcases hbox with h | h
      · rw [h] at hu
        cases hu
      · rwa [← h]
    · simpa only [CanPriv.goto, update_of_ne hut] using hu
  refine ⟨fun u v no hu hv => hs.alone u v no (hof u no hu) (hof v no hv), fun u => ?_,
    fun no hno => ?_⟩
  · by_cases hut : u = t
    · subst hut
      have hplace : (s.goto u pc).pc u = pc := update_self ..
      rw [hplace]
      exact (holds_congr fun _ _ => rfl).2 (hholds (hs.holds u))
    · have hplace : (s.goto t pc).pc u = s.pc u := update_of_ne hut ..
      rw [hplace]
      exact hs.holds u
  · by_cases ht : boxOf (s.pc t) = some no
    · refine hlist (hbox.resolve_right fun h => ?_) no ht
      have := hno t
      simp only [CanPriv.goto, update_self] at this
      exact this (h.trans ht)
    · refine hs.unlisted no fun u hu => ?_
      by_cases hut : u = t
      · subst hut
        exact ht hu
      · have := hno u
        simp only [CanPriv.goto, update_of_ne hut] at this
        exact this hu

/-! ### Steps -/

variable {n : ℕ} {w : PrivWrite} {own : Bool}

theorem Inv.test (hs : s.Inv) (hpc : s.pc t = .testing w)
    (hfree : (w.priv w.data).toNat < n → (s.box (w.priv w.data).toNat).result = .ok ∧
      ∀ u, boxOf (s.pc u) ≠ some (w.priv w.data).toNat) : (s.test n t w).1.Inv := by
  have hnone : boxOf (s.pc t) = none := by rw [hpc]; rfl
  unfold CanPriv.test
  dsimp only
  by_cases hno : (w.priv w.data).toNat ≥ n
  · rw [if_pos hno]
    exact hs.goto (.inl rfl) (fun _ => trivial) fun _ no h => by simp [hnone] at h
  · obtain ⟨hok, hfree⟩ := hfree (by omega)
    rw [if_neg hno, if_neg (by simp [hok])]
    refine hs.goto_setBox (fun u _ => hfree u) (.inl rfl) ?_ (by simp [hnone]) (by simp [boxOf])
    simpa [Holds, CanPriv.goto, setBox] using hs.unlisted _ hfree

theorem Inv.sendmsg (hs : s.Inv) (hpc : s.pc t = .sending w no) (sendOk : Bool) :
    (s.sendmsg t w no sendOk).1.Inv := by
  have hholds := hs.holds t
  rw [hpc] at hholds
  unfold CanPriv.sendmsg
  cases sendOk with
  | true =>
    rw [if_pos rfl]
    refine hs.goto_setBox (fun u hu h => hu (hs.alone u t no h (by rw [hpc]; rfl))) (.inl rfl) ?_
      (by simp [hpc, boxOf, eq_comm]) (by simp [boxOf])
    simpa [Holds, CanPriv.goto, setBox] using hholds
  | false =>
    rw [if_neg (by decide)]
    refine hs.goto (.inl rfl) (fun _ => trivial) fun _ no' h => ?_
    obtain rfl : no = no' := by simpa [hpc, boxOf] using h
    exact hholds

theorem Inv.completionWait (hs : s.Inv) (hpc : s.pc t = .waiting w no own) {s' : CanPriv Tid}
    (h : s.completionWait t w no own = some s') : s'.Inv := by
  have hholds := hs.holds t
  rw [hpc] at hholds
  obtain ⟨rfl, hlist, hdone⟩ := hholds
  have hother : ∀ u ≠ t, boxOf (s.pc u) ≠ some no :=
    fun u hu h => hu (hs.alone u t no h (by rw [hpc]; rfl))
  unfold CanPriv.completionWait at h
  by_cases hcompleted : (s.box no).completed = true
  · rw [if_pos hcompleted] at h
    cases h
    exact hs.goto_setBox hother (.inr rfl) trivial (by simp [hpc, boxOf, eq_comm]) fun _ => hlist
  · rw [if_neg hcompleted, if_neg (not_not.2 hlist)] at h
    cases h
    refine hs.goto_setBox hother (.inl rfl) ?_ (by simp [hpc, boxOf, eq_comm]) (by simp [boxOf])
    simpa [Holds, CanPriv.goto, setBox, hcompleted] using hdone

theorem Inv.wake (hs : s.Inv) (hpc : s.pc t = .woken w no own) :
    ((s.setBox no { s.box no with completed := false }).goto t (afterWait w no own)).Inv := by
  have hholds := hs.holds t
  rw [hpc] at hholds
  obtain ⟨rfl, hlist⟩ := hholds
  exact hs.goto_setBox (fun u hu h => hu (hs.alone u t no h (by rw [hpc]; rfl))) (.inr rfl) trivial
    (by simp [hpc, boxOf, eq_comm]) fun _ => hlist

theorem Inv.collect (hs : s.Inv) (hpc : boxOf (s.pc t) = none) (w : PrivWrite)
    (result : SndResult) : (s.collect t w result).1.Inv := by
  have hgoto : ∀ pc, boxOf pc = none → (Holds s t (s.pc t) → Holds s t pc) → (s.goto t pc).Inv :=
    fun pc hbox hholds => hs.goto (.inl hbox) hholds fun _ no h => by simp [hpc] at h
  unfold CanPriv.collect
  cases result with
  | ok =>
    dsimp only
    split
    · exact hgoto .outside rfl fun _ => trivial
    · exact hgoto (.testing _) rfl fun _ => trivial
  | err | wait => exact hgoto .outside rfl fun _ => trivial

theorem Inv.setBox (hs : s.Inv) {b : SndBox Tid} (hnone : ∀ u, boxOf (s.pc u) ≠ some no)
    (hlist : b.suspendedList = []) : (s.setBox no b).Inv := by
  refine ⟨hs.alone, fun u => ?_, fun no' hno' => ?_⟩
  · refine (holds_congr fun no' hno' => ?_).2 (hs.holds u)
    have hne : no' ≠ no := by
      rintro rfl
      exact hnone u hno'
    exact update_of_ne hne ..
  · by_cases heq : no' = no
    · subst heq
      simpa only [CanPriv.setBox, update_self] using hlist
    · simpa only [CanPriv.setBox, update_of_ne heq] using hs.unlisted no' hno'

/-- The box after its interrupt. -/
def reported (b : SndBox Tid) (done : Bool) : SndBox Tid :=
  ⟨if done = true then .ok else .err, true, b.suspendedList, false⟩

theorem hwCanIsr_of_nil (hlist : (s.box no).suspendedList = []) (done : Bool) :
    s.hwCanIsr no done = s.setBox no (reported (s.box no) done) := by
  unfold CanPriv.hwCanIsr completionDone
  by_cases hcompleted : (s.box no).completed = true
  · simp [CanPriv.setBox, reported, hcompleted]
  · simp [CanPriv.setBox, reported, hcompleted, hlist]

theorem hwCanIsr_of_cons (hcompleted : (s.box no).completed = false) {rest : List Tid}
    (hlist : (s.box no).suspendedList = u :: rest) (done : Bool) :
    s.hwCanIsr no done = (s.setBox no { reported (s.box no) done with suspendedList := rest }).goto u
      (resumed (s.pc u)) := by
  unfold CanPriv.hwCanIsr completionDone
  simp [CanPriv.setBox, reported, hcompleted, hlist]

theorem Inv.hwCanIsr (hs : s.Inv) (no : ℕ) (done : Bool) : (s.hwCanIsr no done).Inv := by
  by_cases hnone : ∀ t, boxOf (s.pc t) ≠ some no
  · have hlist := hs.unlisted no hnone
    rw [hwCanIsr_of_nil hlist]
    exact hs.setBox hnone hlist
  · obtain ⟨t, ht⟩ := not_forall_not.1 hnone
    have hother : ∀ u ≠ t, boxOf (s.pc u) ≠ some no := fun u hu h => hu (hs.alone u t no h ht)
    have hholds := hs.holds t
    -- the writer stays where it is, unless it is in the list
    have hstay : (s.box no).suspendedList = [] →
        (Holds ((s.setBox no (reported (s.box no) done)).goto t (s.pc t)) t (s.pc t)) →
        (s.hwCanIsr no done).Inv := by
      intro hlist hstill
      have heq : s.hwCanIsr no done = (s.setBox no (reported (s.box no) done)).goto t (s.pc t) := by
        rw [hwCanIsr_of_nil hlist, CanPriv.goto]
        simp [CanPriv.setBox]
      rw [heq]
      exact hs.goto_setBox hother (.inl ht) hstill (by simp [ht, eq_comm]) fun _ => hlist
    cases hpc : s.pc t with
    | outside | testing w | collecting w no' =>
      rw [hpc] at ht
      cases ht
    | sending w no' =>
      rw [hpc] at ht hholds hstay
      obtain rfl : no' = no := some.inj ht
      exact hstay hholds (by simpa [Holds, CanPriv.goto, CanPriv.setBox, reported] using hholds)
    | waiting w no' own =>
      rw [hpc] at ht hholds hstay
      obtain rfl : no' = no := some.inj ht
      obtain ⟨rfl, hlist, -⟩ := hholds
      exact hstay hlist (by simpa [Holds, CanPriv.goto, CanPriv.setBox, reported] using hlist)
    | woken w no' own =>
      rw [hpc] at ht hholds hstay
      obtain rfl : no' = no := some.inj ht
      obtain ⟨rfl, hlist⟩ := hholds
      exact hstay hlist (by simpa [Holds, CanPriv.goto, CanPriv.setBox, reported] using hlist)
    | blocked w no' own =>
      rw [hpc] at ht hholds
      obtain rfl : no' = no := some.inj ht
      obtain ⟨rfl, hlist, -, hcompleted⟩ := hholds
      rw [hwCanIsr_of_cons hcompleted hlist, hpc]
      exact hs.goto_setBox hother (.inl rfl) (by simp [Holds, CanPriv.goto, CanPriv.setBox, resumed])
        (by simp [hpc, boxOf, eq_comm]) fun _ => rfl

/-! ### Runs -/

theorem inv_boot : (boot : CanPriv Tid).Inv :=
  ⟨fun _ _ _ h => by simp [boot, boxOf] at h, fun _ => trivial, fun _ _ => rfl⟩

theorem Inv.step (hs : s.Inv) {a : PrivAction Tid} (ha : TestsFree n s a) {s' : CanPriv Tid}
    {out : List (CanEvent Tid)} (h : s.step n a = some (s', out)) : s'.Inv := by
  cases a with
  | write t size priv =>
    unfold CanPriv.step CanPriv.write at h
    dsimp only at h
    split at h
    · next hpc =>
      split at h
      · obtain ⟨rfl, -⟩ := Prod.mk.inj (some.inj h)
        exact hs
      · obtain ⟨rfl, -⟩ := Prod.mk.inj (some.inj h)
        exact hs.goto (.inl rfl) (fun _ => trivial) fun _ no hno => by simp [hpc, boxOf] at hno
    · cases h
  | go t sendOk =>
    unfold CanPriv.step CanPriv.go at h
    dsimp only at h
    split at h
    · cases h
    · cases h
    · next w hpc =>
      obtain rfl := congrArg Prod.fst (some.inj h)
      exact hs.test hpc (by simpa only [TestsFree, hpc, TestFree] using ha)
    · next w no hpc =>
      obtain rfl := congrArg Prod.fst (some.inj h)
      exact hs.sendmsg hpc sendOk
    · next w no own hpc =>
      obtain ⟨s₁, h₁, heq⟩ := map_eq_some_iff.1 h
      obtain rfl := congrArg Prod.fst heq
      exact hs.completionWait hpc h₁
    · next w no own hpc =>
      obtain rfl := congrArg Prod.fst (some.inj h)
      exact hs.wake hpc
    · next w no hpc =>
      obtain rfl := congrArg Prod.fst (some.inj h)
      exact hs.collect (by rw [hpc]; rfl) w _
  | isr no done =>
    obtain rfl := congrArg Prod.fst (some.inj h)
    exact hs.hwCanIsr no done

/-- **No writer waits in vain.**  In every run in which the writers that test a box find it free, a
writer waits for the completion of a box only while a transmission is outstanding in it. -/
theorem run_waitsOutstanding (n : ℕ) {s : CanPriv Tid} {tr : List (CanEvent Tid)}
    (h : Run (step n) (TestsFree n) boot tr s) : s.WaitsOutstanding := by
  have hinv : s.Inv :=
    h.invariant (fun _ s => s.Inv) inv_boot fun hs ha hstep => Inv.step hs ha hstep
  intro t w no own hpc
  have hholds := hinv.holds t
  rw [hpc] at hholds
  exact hholds.2.2.1

/-- A write of one message to the box 0, up to its wait. -/
def writeAndWait : List (PrivAction Unit) :=
  [.write () 16 fun _ => 0, .go () true, .go () true, .go () true]

/-- A writer waits for its own transmission. -/
theorem waitsOutstanding_write : ∃ s : CanPriv Unit, s.WaitsOutstanding ∧
    s.pc () = .blocked ⟨16, 16, 0, fun _ => 0⟩ 0 true := by
  have hwrite : Run (step 1) (TestsFree 1) (boot : CanPriv Unit) _ _ :=
    Run.nil.snoc (a := .write () 16 fun _ => 0) (by trivial) rfl
  have htest := hwrite.snoc (a := .go () true) (by exact fun _ => ⟨rfl, by rintro ⟨⟩; decide⟩) rfl
  have hsent := htest.snoc (a := .go () true) (by trivial) rfl
  have hwait := hsent.snoc (a := .go () true) (by trivial) rfl
  exact ⟨_, run_waitsOutstanding 1 hwait, rfl⟩

/-- After a failed transmission, the next write to the box waits for nothing. -/
theorem not_waitsOutstanding : ¬ ∀ (n : ℕ) (s : CanPriv Unit) (tr : List (CanEvent Unit)),
    Run (step n) (fun _ _ => True) boot tr s → s.WaitsOutstanding := by
  intro hall
  have hrun : Run (step 1) (fun _ _ => True) (boot : CanPriv Unit) _ _ :=
    Run.of_exec (rfl : exec (step 1) (fun _ _ => True) boot (writeAndWait ++
      [.isr 0 false, .go () true, .go () true, .write () 16 fun _ => 0, .go () true, .go () true]) =
        some (_, _))
  exact absurd (hall 1 _ _ hrun () ⟨16, 16, 0, fun _ => 0⟩ 0 false rfl) (by decide)

end CanPriv

end RtThread
