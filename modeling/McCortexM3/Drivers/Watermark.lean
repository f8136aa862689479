import McCortexM3.Drivers.DataQueue

/-!
# The low-water mark of a data queue

`rt_data_queue_pop` resumes a suspended producer only when it leaves no more items than the
low-water mark, one producer at each such pop.  The items in the queue and the producers that
are resumed and have not yet gone on are counted together: a pop below the mark turns one into
the other, a producer that goes on turns it back, and a producer is suspended on a full queue
only.

## Main definitions

* `DqSys.Resumed` — a producer is resumed and has not yet gone on.
* `DqSys.Enough` — items and such producers together exceed the mark.

## Main results

* `DqSys.run_enough` — while a producer is suspended there are enough of them.
-/

set_option linter.all false

namespace RtThread

open Function Option List Nat
open View (link rtIpcListResume rtThreadResume setError setLife unlink)
open Function (update)

namespace DqSys

variable {Tid : Type} [DecidableEq Tid] {s s' : DqSys Tid} {a : DqAction Tid}
  {tr out : List DqEvent} {caller : Option Tid} {t : Tid} {item : DataItem} {timeout : Int32}
  {o : DqList} {pc : DqPc} {lwm : ℕ}

/-- A producer that has been suspended can run again, and has not yet gone on. -/
def Resumed (s : DqSys Tid) (t : Tid) : Prop :=
  s.threads.life t = .live ∧ (s.pc t).waitsFor = some .pushers

/-- A consumer has resumed the producer, which has not yet gone on. -/
def Called (s : DqSys Tid) (t : Tid) : Prop := s.Resumed t ∧ s.threads.error t = .eok

/-- There are more items and resumed producers than `lwm`. -/
def Enough (lwm : ℕ) (s : DqSys Tid) : Prop :=
  ∃ l : List Tid, l.Nodup ∧ (∀ t ∈ l, s.Called t) ∧ lwm < s.q.count + l.length

namespace Enough

theorem of_lt (h : lwm < s.q.count) : Enough lwm s := ⟨[], nodup_nil, nofun, h⟩

theorem mono (h : Enough lwm s) (hcalled : ∀ u, s.Called u → s'.Called u)
    (hcount : s.q.count ≤ s'.q.count) : Enough lwm s' := by
  obtain ⟨l, hnodup, hl, hlt⟩ := h
  exact ⟨l, hnodup, fun u hu => hcalled u (hl u hu), by omega⟩

theorem put (h : Enough lwm s) (t : Tid) (hcalled : ∀ u, u ≠ t → s.Called u → s'.Called u)
    (hcount : s.q.count < s'.q.count) : Enough lwm s' := by
  obtain ⟨l, hnodup, hl, hlt⟩ := h
  refine ⟨l.erase t, hnodup.erase t, ?_, ?_⟩
  · intro u hu
    exact hcalled u (hnodup.mem_erase_iff.1 hu).1 (hl u (mem_of_mem_erase hu))
  · have hlen := le_length_erase (a := t) (l := l)
    omega

theorem pop (h : Enough lwm s) (hnot : ¬ s.Called t) (ht : s'.Called t)
    (hcalled : ∀ u, s.Called u → s'.Called u) (hcount : s.q.count ≤ s'.q.count + 1) :
    Enough lwm s' := by
  obtain ⟨l, hnodup, hl, hlt⟩ := h
  refine ⟨t :: l, nodup_cons.2 ⟨fun hmem => hnot (hl t hmem), hnodup⟩, ?_, ?_⟩
  · rintro u (_ | ⟨_, hu⟩)
    · exact ht
    · exact hcalled u (hl u hu)
  · rw [length_cons]
    omega

end Enough

/-! ### What the parts of a call do to the threads -/

theorem called_goto {u : Tid} (hne : ∀ t, caller = some t → u ≠ t) (h : s.Called u) :
    (s.goto caller pc).Called u := by
  cases caller with
  | none => exact h
  | some t =>
    have hpc : (s.goto (some t) pc).pc u = s.pc u := update_of_ne (hne t rfl) ..
    exact ⟨⟨h.1.1, by rw [hpc]; exact h.1.2⟩, h.2⟩

theorem called_setLife {u : Tid} (h : s.Called u) (t : Tid) :
    ({ s with threads := s.threads.rtThreadResume t }).Called u := by
  refine ⟨⟨?_, h.1.2⟩, h.2⟩
  by_cases hu : u = t
  · subst hu
    simp [rtThreadResume, setLife]
  · simpa [rtThreadResume, setLife, unlink, hu] using h.1.1

theorem called_resumeFirst {u : Tid} (h : s.Called u) (o : DqList) :
    (s.resumeFirst o).Called u := by
  rw [resumeFirst, rtIpcListResume]
  split
  · exact called_setLife h _
  · exact h

/-- The suspended threads are in their lists, and the counters have not wrapped around. -/
structure Ordered (s : DqSys Tid) : Prop where
  parked : s.threads.Parked fun u => (s.pc u).waitsFor
  le : s.q.getIndex.toNat ≤ s.q.putIndex.toNat
  count_le : s.q.count ≤ s.q.size.toNat

section

variable (h : s.threads.Parked fun u => (s.pc u).waitsFor)
include h

theorem parked_goto (hlive : ∀ t, caller = some t → s.threads.life t = .live) (pc : DqPc) :
    (s.goto caller pc).threads.Parked fun u => ((s.goto caller pc).pc u).waitsFor := by
  cases caller with
  | none => exact h
  | some t =>
    have hpc : (fun u => ((s.goto (some t) pc).pc u).waitsFor) =
        update (fun u => (s.pc u).waitsFor) t pc.waitsFor :=
      comp_update DqPc.waitsFor s.pc t pc
    rw [hpc]
    exact h.goto (by simp [hlive t rfl]) _

theorem parked_resumeFirst (o : DqList) :
    (s.resumeFirst o).threads.Parked fun u => (s.pc u).waitsFor := by
  rw [resumeFirst, rtIpcListResume]
  split
  · exact h.resume _
  · exact h

theorem parked_suspend (hlive : s.threads.life t = .live) (hpc : pc.waitsFor = some o) :
    (((s.threads.setError t .eok).rtIpcListSuspend o t .fifo)).Parked
      fun u => ((update s.pc t pc) u).waitsFor := by
  have heq : (fun u => ((update s.pc t pc) u).waitsFor) =
      update (fun u => (s.pc u).waitsFor) t (some o) := by
    rw [← hpc]
    exact comp_update DqPc.waitsFor s.pc t pc
  rw [heq]
  exact h.suspend hlive o .fifo

end

theorem life_resumeFirst {u : Tid} (h : s.threads.life u = .live) (o : DqList) :
    (s.resumeFirst o).threads.life u = .live := by
  rw [resumeFirst, rtIpcListResume]
  split
  · next t rest hqueue =>
    by_cases hu : u = t
    · subst hu
      simp [rtThreadResume, setLife]
    · simpa [rtThreadResume, setLife, unlink, hu] using h
  · exact h

theorem queue_resumeFirst_ne_nil {o' : DqList} (h : (s.resumeFirst o).threads.queue o' ≠ []) :
    s.threads.queue o' ≠ [] := by
  rw [resumeFirst, rtIpcListResume] at h
  split at h
  · intro hnil
    simp [rtThreadResume, setLife, unlink, hnil] at h
  · exact h

theorem DqStep.putIndex {q q' : DataQueue} (h : DqStep q q' out)
    (hwrap : ∀ item, .pushed item ∈ out → q.putIndex.toNat + 1 < 2 ^ 16) :
    q'.lwm = q.lwm ∧ q'.putIndex.toNat = q.putIndex.toNat + (pushedItems out).length := by
  cases h with
  | put item _ _ =>
    refine ⟨rfl, ?_⟩
    have hlt := hwrap item (by simp)
    show (q.putIndex + 1).toNat = q.putIndex.toNat + 1
    rw [UInt16.toNat_add, UInt16.toNat_one, mod_eq_of_lt hlt]
  | _ => exact ⟨rfl, rfl⟩

theorem DqStep.le {q q' : DataQueue} (h : DqStep q q' out)
    (hwrap : ∀ item, .pushed item ∈ out → q.putIndex.toNat + 1 < 2 ^ 16)
    (hle : q.getIndex.toNat ≤ q.putIndex.toNat) : q'.getIndex.toNat ≤ q'.putIndex.toNat := by
  cases h with
  | put item _ _ =>
    have hlt := hwrap item (by simp)
    show q.getIndex.toNat ≤ (q.putIndex + 1).toNat
    rw [UInt16.toNat_add, UInt16.toNat_one, mod_eq_of_lt hlt]
    exact le_succ_of_le hle
  | get hempty =>
    have hput := q.putIndex.toNat_lt
    have hne : q.getIndex.toNat ≠ q.putIndex.toNat := fun he => hempty (UInt16.toNat_inj.1 he)
    show (q.getIndex + 1).toNat ≤ q.putIndex.toNat
    rw [UInt16.toNat_add, UInt16.toNat_one]
    omega
  | _ => exact hle

/-! ### Steps -/

/-- While a producer is suspended, there are more items and resumed producers than the mark. -/
structure Backed (s : DqSys Tid) : Prop extends Ordered s where
  mark : s.q.lwm.toNat < s.q.size.toNat
  enough : s.threads.queue .pushers ≠ [] → Enough s.q.lwm.toNat s

namespace Backed

section

variable (h : s.Backed)
include h

theorem threads (hparked : s'.threads.Parked fun u => (s'.pc u).waitsFor)
    (hq : s'.q = s.q) (hqueue : s'.threads.queue .pushers ≠ [] → s.threads.queue .pushers ≠ [])
    (hcalled : ∀ u, s.Called u → s'.Called u) : s'.Backed := by
  refine ⟨⟨hparked, hq ▸ h.le, hq ▸ h.count_le⟩, hq ▸ h.mark, ?_⟩
  intro hne
  rw [hq]
  exact (h.enough (hqueue hne)).mono hcalled (by rw [hq])

theorem goto (hlive : ∀ t, caller = some t → s.threads.life t = .live)
    (hnot : ∀ t, caller = some t → ¬ s.Called t) (pc : DqPc) : (s.goto caller pc).Backed := by
  have hthreads : (s.goto caller pc).threads = s.threads := by cases caller <;> rfl
  refine h.threads (parked_goto h.parked hlive pc) (q_goto ..) (by rw [hthreads]; exact id) ?_
  intro u hu
  refine called_goto ?_ hu
  rintro t ht rfl
  exact hnot u ht hu

theorem full (hfull : s.q.difference = s.q.size.toNat)
    (hparked : s'.threads.Parked fun u => (s'.pc u).waitsFor) (hq : s'.q = s.q) : s'.Backed := by
  refine ⟨⟨hparked, hq ▸ h.le, hq ▸ h.count_le⟩, hq ▸ h.mark, ?_⟩
  intro _
  have hcount := DataQueue.difference_eq_count h.le
  have hmark := h.mark
  apply Enough.of_lt
  rw [hq]
  omega

theorem pushLoop (hlive : ∀ t, caller = some t → s.threads.life t = .live)
    (hwrap : .pushed item ∈ out → s.q.putIndex.toNat + 1 < 2 ^ 16)
    (hs : s.pushLoop caller item timeout = some (s', out)) : s'.Backed := by
  rw [DqSys.pushLoop] at hs
  split at hs
  · next hfull =>
    split at hs
    · cases hs
      exact h.full hfull (parked_goto h.parked hlive _) (q_goto ..)
    · obtain ⟨t, rfl, he⟩ := map_eq_some_iff.1 hs
      cases he
      exact h.full hfull (parked_suspend h.parked (hlive t rfl) rfl) rfl
  · next hfull =>
    cases hs
    have hput := hwrap (by simp)
    have hplace := DataQueue.hasPlace_of_le h.le
    obtain ⟨hlt, hstored⟩ := DataQueue.stored_put hplace h.count_le hfull item
    have hcount : (s.q.put item).count = s.q.count + 1 := by
      have hlen := congrArg List.length hstored
      rwa [length_append, DataQueue.length_stored, DataQueue.length_stored] at hlen
    obtain ⟨s₁, hs₁⟩ : ∃ s₁, s₁ = DqSys.resumeFirst { s with q := s.q.put item } .poppers := ⟨_, rfl⟩
    have hq : s₁.q = s.q.put item := by rw [hs₁]; rfl
    have hpc : s₁.pc = s.pc := by rw [hs₁]; rfl
    have hlive₁ : ∀ t, caller = some t → s₁.threads.life t = .live := by
      intro t ht
      rw [hs₁]
      exact life_resumeFirst (s := { s with q := s.q.put item }) (hlive t ht) _
    have hparked : s₁.threads.Parked fun u => (s₁.pc u).waitsFor := by
      rw [hpc, hs₁]
      exact parked_resumeFirst (s := { s with q := s.q.put item }) h.parked _
    have hgoto : (s₁.goto caller .outside).q = s.q.put item := (q_goto ..).trans hq
    rw [← hs₁]
    refine ⟨⟨parked_goto hparked hlive₁ _, ?_, ?_⟩, by rw [hgoto]; exact h.mark, ?_⟩
    · rw [hgoto]
      exact (DqStep.put item hplace hfull).le (fun _ _ => hput) h.le
    · rw [hgoto, hcount]
      exact hlt
    · intro hne
      have hthreads : (s₁.goto caller .outside).threads = s₁.threads := by cases caller <;> rfl
      rw [hthreads, hs₁] at hne
      have henough := h.enough (queue_resumeFirst_ne_nil (s := { s with q := s.q.put item }) hne)
      have hcalled : ∀ u, s.Called u → s₁.Called u := by
        intro u hu
        rw [hs₁]
        exact called_resumeFirst (s := { s with q := s.q.put item }) hu _
      rw [hgoto]
      cases caller with
      | none =>
        refine henough.mono hcalled ?_
        rw [hgoto, hcount]
        exact le_succ _
      | some t =>
        refine henough.put t ?_ ?_
        · intro u hut hu
          exact called_goto (by rintro v ⟨⟩; exact hut) (hcalled u hu)
        · rw [hgoto, hcount]
          exact lt_succ_self _

/-- An item is popped, and the first producer is resumed if no more items are left than the mark. -/
theorem get (hempty : s.q.getIndex ≠ s.q.putIndex) :
    (if ({ s with q := s.q.get }).q.difference ≤ ({ s with q := s.q.get }).q.lwm.toNat then
      DqSys.resumeFirst { s with q := s.q.get } .pushers else { s with q := s.q.get }).Backed := by
  have hcount : s.q.count = s.q.get.count + 1 := by
    have hlen := congrArg List.length (DataQueue.stored_get hempty)
    rwa [length_cons, DataQueue.length_stored, DataQueue.length_stored] at hlen
  have hindex : s.q.get.getIndex.toNat ≤ s.q.get.putIndex.toNat :=
    (DqStep.get hempty).le (by simp) h.le
  obtain ⟨s₁, hs₁⟩ : ∃ s₁, s₁ = { s with q := s.q.get } := ⟨_, rfl⟩
  have hcalled : ∀ u, s.Called u → s₁.Called u := by
    intro u hu
    rw [hs₁]
    exact hu
  have hordered : s₁.Ordered := by
    have hle := h.count_le
    rw [hs₁]
    exact ⟨h.parked, hindex, show s.q.get.count ≤ s.q.size.toNat by omega⟩
  have hpop : s.q.count ≤ s₁.q.count + 1 := by
    rw [hs₁]
    exact hcount.le
  have hmark : s₁.q.lwm.toNat < s₁.q.size.toNat := by
    rw [hs₁]
    exact h.mark
  have hlwm : s₁.q.lwm = s.q.lwm := by rw [hs₁]; rfl
  have hqueue : s₁.threads.queue = s.threads.queue := by rw [hs₁]
  rw [← hs₁]
  split
  · refine ⟨⟨parked_resumeFirst hordered.parked _, hordered.le, hordered.count_le⟩, hmark, ?_⟩
    intro hne
    have hne₁ := queue_resumeFirst_ne_nil hne
    rw [hqueue] at hne₁
    have henough := h.enough hne₁
    rw [← hlwm] at henough
    cases hlist : s₁.threads.queue .pushers with
    | nil => exact absurd (hqueue ▸ hlist) hne₁
    | cons t rest =>
      have hblocked : s₁.threads.life t = .blocked ∧ (s₁.pc t).waitsFor = some .pushers :=
        (hordered.parked.queued .pushers t).1 (by rw [hlist]; exact mem_cons_self)
      have herror := hordered.parked.error t hblocked.1
      refine henough.pop (t := t) ?_ ?_ (fun u hu => called_resumeFirst (hcalled u hu) _) hpop
      · intro hu
        have hlive := (hcalled t hu).1.1
        rw [hblocked.1] at hlive
        cases hlive
      · refine ⟨⟨?_, hblocked.2⟩, ?_⟩
        · simp [resumeFirst, rtIpcListResume, hlist, rtThreadResume, setLife]
        · simpa [resumeFirst, rtIpcListResume, hlist, rtThreadResume, setLife,
            unlink] using herror
  · next hlt =>
    refine ⟨hordered, hmark, fun _ => .of_lt ?_⟩
    rw [DataQueue.difference_eq_count hordered.le] at hlt
    omega

theorem popLoop (hlive : ∀ t, caller = some t → s.threads.life t = .live)
    (hnot : ∀ t, caller = some t → (s.pc t).waitsFor ≠ some .pushers)
    (hs : s.popLoop caller timeout = some (s', out)) : s'.Backed := by
  rw [DqSys.popLoop] at hs
  split at hs
  · split at hs
    · cases hs
      exact h.goto hlive (fun t ht hu => hnot t ht hu.1.2) _
    · obtain ⟨t, rfl, he⟩ := map_eq_some_iff.1 hs
      cases he
      refine h.threads (parked_suspend h.parked (hlive t rfl) rfl) rfl id ?_
      intro u hu
      have hut : u ≠ t := by
        rintro rfl
        exact hnot u rfl hu.1.2
      have hlife : s.threads.life u = .live := hu.1.1
      have herror : s.threads.error u = .eok := hu.2
      have hwaits : (s.pc u).waitsFor = some .pushers := hu.1.2
      refine ⟨⟨?_, ?_⟩, ?_⟩
      · simpa [DqSys.goto, View.rtIpcListSuspend, setLife, setError, link, hut]
          using hlife
      · simpa [DqSys.goto, hut] using hwaits
      · simpa [DqSys.goto, View.rtIpcListSuspend, setLife, setError, link, hut]
          using herror
  · next hempty =>
    cases hs
    have hget := h.get hempty
    dsimp only at hget ⊢
    split
    · next hlow =>
      rw [if_pos hlow] at hget
      exact hget.goto
        (fun t ht => life_resumeFirst (s := { s with q := s.q.get }) (hlive t ht) _)
        (fun t ht hu => hnot t ht hu.1.2) _
    · next hhigh =>
      rw [if_neg hhigh] at hget
      exact hget.goto hlive (fun t ht hu => hnot t ht hu.1.2) _

theorem wake (hblocked : s.threads.life t = .blocked) (err : RtErr) :
    ({ s with threads := (s.threads.setError t err).rtThreadResume t }).Backed := by
  refine h.threads (h.parked.wake t err) rfl ?_ ?_
  · intro hne hnil
    simp [rtThreadResume, setLife, unlink, setError, hnil] at hne
  · intro u hu
    have hut : u ≠ t := by
      rintro rfl
      rw [hu.1.1] at hblocked
      cases hblocked
    have hlife : s.threads.life u = .live := hu.1.1
    have herror : s.threads.error u = .eok := hu.2
    refine ⟨⟨?_, hu.1.2⟩, ?_⟩
    · simpa [rtThreadResume, setLife, unlink, setError, hut] using hlife
    · simpa [rtThreadResume, setLife, unlink, setError, hut] using herror

theorem resumeEntry (o : DqList) : (s.resumeEntry o).Backed := by
  unfold DqSys.resumeEntry
  split
  · next t rest hlist =>
    exact h.wake ((h.parked.queued o t).1 (by rw [hlist]; exact mem_cons_self)).1 .error
  · exact h

theorem rtThreadTimeout {v : View Tid DqList} (hv : s.threads.rtThreadTimeout t = some v) :
    ({ s with threads := v }).Backed := by
  rw [View.rtThreadTimeout, ite_none_right_eq_some] at hv
  obtain ⟨hblocked, he⟩ := hv
  cases he
  exact h.wake hblocked .etimeout

end

end Backed

theorem live_of_canCall (hc : s.canCall caller = true) :
    ∀ t, caller = some t → s.threads.life t = .live ∧ s.pc t = .outside := by
  intro t ht
  subst ht
  rw [canCall, Bool.and_eq_true, decide_eq_true_iff, decide_eq_true_iff] at hc
  exact hc

theorem backed_go (h : s.Backed) (hlive : s.threads.life t = .live)
    (hwrap : ∀ item, .pushed item ∈ out → s.q.putIndex.toNat + 1 < 2 ^ 16)
    (hs : s.go t (s.pc t) = some (s', out)) : s'.Backed := by
  have hcaller : ∀ u, some t = some u → s.threads.life u = .live := by
    rintro u ⟨⟩
    exact hlive
  cases hpc : s.pc t with
  | outside =>
    rw [hpc] at hs
    cases hs
  | push item timeout =>
    rw [hpc, go] at hs
    split at hs
    · next herr =>
      cases hs
      refine h.goto hcaller ?_ .outside
      rintro u ⟨⟩ hu
      exact herr hu.2
    · exact h.pushLoop hcaller (hwrap item) hs
  | pop timeout =>
    have hnot : ∀ u, some t = some u → (s.pc u).waitsFor ≠ some .pushers := by
      rintro u ⟨⟩
      simp [hpc, DqPc.waitsFor]
    rw [hpc, go] at hs
    split at hs
    · cases hs
      exact h.goto hcaller (fun u hu hcalled => hnot u hu hcalled.1.2) .outside
    · exact h.popLoop hcaller hnot hs
  | testing o =>
    have hnot : ∀ u, some t = some u → ¬ s.Called u := by
      rintro u ⟨⟩ hu
      have hwaits := hu.1.2
      simp [hpc, DqPc.waitsFor] at hwaits
    rw [hpc, go] at hs
    split at hs <;> cases hs <;> exact h.goto hcaller hnot _
  | resuming o =>
    rw [hpc, go] at hs
    cases hs
    refine (h.resumeEntry o).goto ?_ ?_ _
    · rintro u ⟨⟩
      rw [resumeEntry]
      split
      · next v rest hlist =>
        by_cases hv : t = v
        · subst hv
          simp [rtThreadResume, setLife]
        · simpa [rtThreadResume, setLife, unlink, setError, hv] using hlive
      · exact hlive
    · rintro u ⟨⟩ hu
      have hwaits : (s.pc t).waitsFor = some .pushers := hu.1.2
      simp [hpc, DqPc.waitsFor] at hwaits

/-- **Every step** that does not wrap the put index keeps the producers backed. -/
theorem backed_step (h : s.Backed)
    (hwrap : ∀ item, .pushed item ∈ out → s.q.putIndex.toNat + 1 < 2 ^ 16)
    (hs : s.step a = some (s', out)) : s'.Backed := by
  cases a with
  | push caller item timeout =>
    rw [step, ite_none_right_eq_some] at hs
    exact h.pushLoop (fun t ht => (live_of_canCall hs.1 t ht).1) (hwrap item) hs.2
  | pop caller timeout =>
    rw [step, ite_none_right_eq_some] at hs
    refine h.popLoop (fun t ht => (live_of_canCall hs.1 t ht).1) ?_ hs.2
    intro t ht
    rw [(live_of_canCall hs.1 t ht).2]
    rintro ⟨⟩
  | peak =>
    cases hs
    exact h
  | reset t =>
    rw [step, ite_none_right_eq_some] at hs
    obtain ⟨hcall, he⟩ := hs
    cases he
    refine h.goto (fun u hu => (live_of_canCall hcall u hu).1) ?_ _
    intro u hu hcalled
    have hwaits := hcalled.1.2
    rw [(live_of_canCall hcall u hu).2] at hwaits
    cases hwaits
  | go t =>
    rw [step, ite_none_right_eq_some] at hs
    exact backed_go h hs.1 hwrap hs.2
  | timeout t =>
    rw [step, ite_none_right_eq_some] at hs
    obtain ⟨v, hv, he⟩ := map_eq_some_iff.1 hs.2
    cases he
    exact h.rtThreadTimeout hv

/-- A pop that leaves no more items than the mark resumes the first suspended producer. -/
theorem resumed_popLoop (h : s.Ordered) (hlive : ∀ u, caller = some u → s.threads.life u = .live)
    (hs : s.popLoop caller timeout = some (s', out)) (hpop : .popped item ∈ out)
    (hlow : s'.q.stored.length ≤ s.q.lwm.toNat)
    (ht : (s.threads.queue .pushers).head? = some t) : s'.Resumed t := by
  rw [popLoop] at hs
  split at hs
  · split at hs
    · cases hs
      simp at hpop
    · obtain ⟨u, -, he⟩ := map_eq_some_iff.1 hs
      cases he
      simp at hpop
  · next hempty =>
    cases hs
    obtain ⟨rest, hlist⟩ := head?_eq_some_iff.1 ht
    have hblocked : s.threads.life t = .blocked ∧ (s.pc t).waitsFor = some .pushers :=
      (h.parked.queued .pushers t).1 (by rw [hlist]; exact mem_cons_self)
    have hne : ∀ u, caller = some u → t ≠ u := by
      rintro u hu rfl
      rw [hlive t hu] at hblocked
      cases hblocked.1
    have hcount : s.q.get.difference = s.q.get.count :=
      DataQueue.difference_eq_count ((DqStep.get hempty).le (by simp) h.le)
    dsimp only at hlow ⊢
    have hq : ((if s.q.get.difference ≤ s.q.get.lwm.toNat then
        resumeFirst { s with q := s.q.get } .pushers else { s with q := s.q.get }).goto caller
          .outside).q = s.q.get := by
      rw [q_goto]
      split <;> rfl
    rw [hq, DataQueue.length_stored] at hlow
    have hle : s.q.get.difference ≤ s.q.get.lwm.toNat := by
      rw [hcount]
      exact Int.ofNat_le.2 hlow
    rw [if_pos hle]
    have hresumed : (resumeFirst { s with q := s.q.get } .pushers).Resumed t := by
      refine ⟨?_, hblocked.2⟩
      simp [resumeFirst, rtIpcListResume, hlist, rtThreadResume, setLife]
    cases caller with
    | none => exact hresumed
    | some u =>
      refine ⟨hresumed.1, ?_⟩
      have hpc : ((resumeFirst { s with q := s.q.get } .pushers).goto (some u) .outside).pc t = s.pc t :=
        update_of_ne (hne u rfl) ..
      rw [hpc]
      exact hblocked.2

theorem not_popped_pushLoop (hs : s.pushLoop caller item timeout = some (s', out))
    (item' : DataItem) : .popped item' ∉ out := by
  rw [pushLoop] at hs
  split at hs
  · split at hs
    · cases hs
      simp
    · obtain ⟨u, -, he⟩ := map_eq_some_iff.1 hs
      cases he
      simp
  · cases hs
    simp

theorem resumed_of_popped (h : s.Ordered) (hs : s.step a = some (s', out))
    (hpop : .popped item ∈ out) (hlow : s'.q.stored.length ≤ s.q.lwm.toNat)
    (ht : (s.threads.queue .pushers).head? = some t) : s'.Resumed t := by
  cases a with
  | push caller item timeout =>
    rw [step, ite_none_right_eq_some] at hs
    exact absurd hpop (not_popped_pushLoop hs.2 _)
  | pop caller timeout =>
    rw [step, ite_none_right_eq_some] at hs
    exact resumed_popLoop h (fun u hu => (live_of_canCall hs.1 u hu).1) hs.2 hpop hlow ht
  | peak =>
    cases hs
    simp at hpop
  | reset u =>
    rw [step, ite_none_right_eq_some] at hs
    obtain ⟨-, he⟩ := hs
    cases he
    simp at hpop
  | go u =>
    rw [step, ite_none_right_eq_some] at hs
    obtain ⟨hlive, hs⟩ := hs
    cases hpc : s.pc u with
    | outside =>
      rw [hpc] at hs
      cases hs
    | push item timeout =>
      rw [hpc, go] at hs
      split at hs
      · cases hs
        simp at hpop
      · exact absurd hpop (not_popped_pushLoop hs _)
    | pop timeout =>
      rw [hpc, go] at hs
      split at hs
      · cases hs
        simp at hpop
      · exact resumed_popLoop h (by rintro v ⟨⟩; exact hlive) hs hpop hlow ht
    | testing o =>
      rw [hpc, go] at hs
      split at hs <;> cases hs <;> simp at hpop
    | resuming o =>
      rw [hpc, go] at hs
      cases hs
      simp at hpop
  | timeout u =>
    rw [step, ite_none_right_eq_some] at hs
    obtain ⟨v, -, he⟩ := map_eq_some_iff.1 hs.2
    cases he
    simp at hpop

/-! ### Runs -/

/-- In every run of fewer than 65536 pushes, while a producer is suspended the items in the queue
and the producers that are resumed **exceed the low-water mark**, and a pop that leaves no more
items than the mark resumes the first suspended producer. -/
theorem run_enough (prio : Tid → ℕ) (queue : ℕ → DataItem) {size lwm : UInt16} (hlwm : lwm < size)
    {tr : List DqEvent} {s : DqSys Tid}
    (hrun : Run step (fun _ _ => True) (boot prio queue size lwm) tr s)
    (hpush : (pushedItems tr).length < 65536) :
    (s.threads.queue .pushers ≠ [] → ∃ l : List Tid, l.Nodup ∧ (∀ t ∈ l, s.Resumed t) ∧
      lwm.toNat < s.q.stored.length + l.length) ∧
    ∀ a s' out item t, s.step a = some (s', out) → .popped item ∈ out →
      s'.q.stored.length ≤ lwm.toNat → (s.threads.queue .pushers).head? = some t →
        s'.Resumed t := by
  have hinv : s.Backed ∧ s.q.lwm = lwm ∧ s.q.putIndex.toNat = (pushedItems tr).length := by
    revert hpush
    refine hrun.invariant (fun tr s => (pushedItems tr).length < 65536 →
      s.Backed ∧ s.q.lwm = lwm ∧ s.q.putIndex.toNat = (pushedItems tr).length) ?_ ?_
    · intro _
      refine ⟨⟨⟨View.parked_idle prio _, le_rfl, ?_⟩, UInt16.lt_iff_toNat_lt.1 hlwm, ?_⟩, rfl, rfl⟩
      · exact (DataQueue.count_init queue size lwm).trans_le (Nat.zero_le _)
      · intro hne
        exact absurd rfl hne
    · rintro tr s a s' out ih - hs hpush
      have happend : pushedItems (tr ++ out) = pushedItems tr ++ pushedItems out :=
        filterMap_append
      rw [happend, length_append] at hpush ⊢
      obtain ⟨hbacked, hlwm', hput⟩ := ih (by omega)
      have hstep := dqStep_step (pushHasPlace_of_le hbacked.le a) hs
      have hwrap : ∀ item, .pushed item ∈ out → s.q.putIndex.toNat + 1 < 2 ^ 16 := by
        intro item hmem
        have hpos : 0 < (pushedItems out).length :=
          length_pos_of_mem (mem_filterMap.2 ⟨_, hmem, rfl⟩)
        omega
      obtain ⟨hlwm'', hput'⟩ := hstep.putIndex hwrap
      exact ⟨backed_step hbacked hwrap hs, hlwm''.trans hlwm', by rw [hput', hput]⟩
  obtain ⟨hbacked, rfl, -⟩ := hinv
  refine ⟨?_, fun a s' out item t hs hpop hlow ht =>
    resumed_of_popped hbacked.toOrdered hs hpop hlow ht⟩
  intro hne
  obtain ⟨l, hnodup, hl, hlt⟩ := hbacked.enough hne
  refine ⟨l, hnodup, fun t ht => (hl t ht).1, ?_⟩
  rw [DataQueue.length_stored]
  exact hlt

/-- Two producers wait behind two items; an item is popped. -/
def popsOne : List (DqAction (Fin 2)) :=
  [.push none ⟨5, 1⟩ 0, .push none ⟨6, 1⟩ 0, .push (some 0) ⟨7, 1⟩ (-1),
    .push (some 1) ⟨8, 1⟩ (-1), .pop none 0]

/-- One of them is still suspended, and the other one makes up for the item. -/
theorem run_enough_popsOne :
    ∃ s : DqSys (Fin 2), s.threads.queue .pushers = [1] ∧ s.q.stored = [⟨6, 1⟩] ∧
      ∃ l : List (Fin 2), l.Nodup ∧ (∀ t ∈ l, s.Resumed t) ∧ 1 < s.q.stored.length + l.length := by
  have hsome : (exec step (fun _ _ => True) (boot (fun _ : Fin 2 => 10) (fun _ => ⟨0, 0⟩) 2 1)
      popsOne).any fun r =>
        r.1.threads.queue .pushers = [1] ∧ r.1.q.stored = [⟨6, 1⟩] ∧
          (pushedItems r.2).length < 65536 := by
    decide +kernel
  obtain ⟨s, tr, hrun, hqueue, hstored, hpush⟩ := Run.of_any hsome
  have henough := run_enough (fun _ : Fin 2 => 10) (fun _ => ⟨0, 0⟩) (by decide : (1 : UInt16) < 2)
    hrun hpush
  have hne : s.threads.queue .pushers ≠ [] := by
    rw [hqueue]
    exact cons_ne_nil 1 []
  exact ⟨s, hqueue, hstored, henough.1 hne⟩

end DqSys

end RtThread
