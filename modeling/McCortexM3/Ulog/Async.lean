import McCortexM3.Drivers.RingBlock
import McCortexM3.Mem.Align

/-!
# Asynchronous log output

With `ULOG_USING_ASYNC_OUTPUT`, `do_output` of `ulog.c` puts a log line into the ring block buffer
`async_rbb` and then releases the semaphore `async_notice`.  The output thread resets this
semaphore, takes it, and hands all complete lines over to the backends, again and again.  Threads
and interrupts that log, and the output thread, may interrupt each other between any two of these
steps.

## Main definitions

* `Ulog.doOutput`, `Ulog.asyncStep` — a new log call, and the next step of the output thread.
* `Ulog.step` — one step of any of them.
* `Ulog.remaining` — how many steps are left without a new log call.

## Main results

* `Ulog.blocks_step` — every block in use is with one of them.
* `Ulog.inHand_step` — no line is lost or handed over twice.
* `Ulog.remaining_step` — without a new log call, all steps come to an end.
-/

set_option linter.all false

namespace RtThread

open Function Option List
open Function (update)
open List (count)
open Rbb (place rtSlistRemove setStatus)

/-- `ULOG_FRAME_MAGIC`. -/
def ulogFrameMagic : UInt8 := 0x10

/-- What a call of `do_output` is given.  The length of the text fits in `log_len`. -/
structure UlogLine where
  level : UInt32
  tag : UInt32
  isRaw : Bool
  log : List UInt8
  log_lt : log.length < 2 ^ 23
  deriving DecidableEq

/-- `struct ulog_frame`, with the text behind it. -/
structure UlogFrame where
  magic : UInt8
  line : UlogLine

/-- The size of the block for a line: that of its frame is 16. -/
def UlogLine.blkSize (l : UlogLine) : UInt32 := rtAlign (16 + UInt32.ofNat l.log.length)

/-- A call of `do_output` that has got a block: it is to write the line and to put the block, or it
has put the block and is to release `async_notice`. -/
inductive OutputCall
  | filling (i : ℕ) (line : UlogLine)
  | noticing
  deriving DecidableEq

/-- What `async_output_thread_entry` does next: it resets `async_notice`, takes it or waits for it,
gets a block, hands over its line, and frees the block. -/
inductive AsyncPc
  | resetting
  | taking
  | waiting
  | getting
  | handing (i : ℕ)
  | freeing (i : ℕ)
  deriving DecidableEq

/-- `struct rt_ulog`, with the calls in progress.  A frame is given by the index of its block. -/
structure Ulog where
  asyncRbb : Rbb
  frame : ℕ → UlogFrame
  asyncNotice : UInt16
  thread : AsyncPc
  calls : List OutputCall

/-- What an observer sees: a line is accepted, and handed over to the backends. -/
inductive UlogEvent
  | accepted (line : UlogLine)
  | handed (line : UlogLine)

/-- What can happen next: somebody logs, a call in progress goes on, or the output thread does. -/
inductive UlogAction
  | log (line : UlogLine)
  | put (k : ℕ)
  | release (k : ℕ)
  | thread

namespace Ulog

/-- `ulog_init`. -/
def ulogInit (buf bufSize : UInt32) (blockSet : ℕ → RbbBlk) (blkMaxNum : ℕ)
    (frame : ℕ → UlogFrame) : Ulog :=
  ⟨.rtRbbInit buf bufSize blockSet blkMaxNum, frame, 0, .resetting, []⟩

/-- The first part of `do_output`: a line for which there is no block is dropped. -/
def doOutput (line : UlogLine) (s : Ulog) : Ulog × List UlogEvent :=
  match s.asyncRbb.rtRbbBlkAlloc line.blkSize with
  | (r, some i) => ({ s with asyncRbb := r, calls := s.calls ++ [.filling i line] },
      [.accepted line])
  | (r, none) => ({ s with asyncRbb := r }, [])

/-- `rt_sem_release` of `async_notice`, for which only the output thread waits. -/
def rtSemRelease (s : Ulog) : Ulog :=
  if s.thread = .waiting then { s with thread := .getting }
  else { s with asyncNotice := s.asyncNotice + 1 }

/-- The next step of `async_output_thread_entry`, with `ulog_async_waiting_log` and
`ulog_async_output`; `none` when it waits. -/
def asyncStep (s : Ulog) : Option (Ulog × List UlogEvent) :=
  match s.thread with
  | .resetting => some ({ s with asyncNotice := 0, thread := .taking }, [])
  | .taking =>
    if s.asyncNotice > 0 then
      some ({ s with asyncNotice := s.asyncNotice - 1, thread := .getting }, [])
    else some ({ s with thread := .waiting }, [])
  | .waiting => none
  | .getting =>
    match s.asyncRbb.rtRbbBlkGet with
    | (r, some i) => some ({ s with asyncRbb := r, thread := .handing i }, [])
    | (r, none) => some ({ s with asyncRbb := r, thread := .resetting }, [])
  | .handing i =>
    some ({ s with thread := .freeing i },
      if (s.frame i).magic = ulogFrameMagic then [.handed (s.frame i).line] else [])
  | .freeing i =>
    (s.asyncRbb.rtRbbBlkFree i).map fun r => ({ s with asyncRbb := r, thread := .getting }, [])

/-- One step.  Nobody else reads a frame before its block is put. -/
def step (s : Ulog) : UlogAction → Option (Ulog × List UlogEvent)
  | .log line => some (s.doOutput line)
  | .put k =>
    match s.calls[k]? with
    | some (.filling i line) =>
      (s.asyncRbb.rtRbbBlkPut i).map fun r =>
        ({ s with asyncRbb := r, frame := update s.frame i ⟨ulogFrameMagic, line⟩,
                  calls := s.calls.set k .noticing }, [])
    | _ => none
  | .release k =>
    match s.calls[k]? with
    | some .noticing => some ({ s.rtSemRelease with calls := s.calls.eraseIdx k }, [])
    | _ => none
  | .thread => s.asyncStep

/-! ### The blocks -/

/-- The blocks that are complete, and that nobody has got. -/
def complete (r : Rbb) : List ℕ := r.blkList.filter fun i => (r.blkSet i).status = .put

end Ulog

namespace OutputCall

/-- The block that the call is to put. -/
def block : OutputCall → Option ℕ
  | filling i _ => some i
  | noticing => none

/-- The line that the call is to write. -/
def line : OutputCall → Option UlogLine
  | filling _ line => some line
  | noticing => none

/-- More than what the steps that it leads to are worth. -/
def weight : OutputCall → ℕ
  | filling .. => 8
  | noticing => 4

end OutputCall

/-- The block that the output thread has got. -/
def AsyncPc.block : AsyncPc → Option ℕ
  | handing i | freeing i => some i
  | _ => none

namespace Ulog

/-- The blocks of the calls in progress. -/
def filled (calls : List OutputCall) : List ℕ := calls.filterMap OutputCall.block

/-- Every block in use is with a call in progress, is complete, or is with the output thread. -/
structure Blocks (s : Ulog) : Prop where
  nodup : s.asyncRbb.blkList.Nodup
  mem_list : ∀ i, i ∈ s.asyncRbb.blkList ↔
    i < s.asyncRbb.blkMaxNum ∧ (s.asyncRbb.blkSet i).status ≠ .unused
  nodup_filled : (filled s.calls).Nodup
  filled : ∀ i, i ∈ filled s.calls ↔ i ∈ s.asyncRbb.blkList ∧ (s.asyncRbb.blkSet i).status = .inited
  got : ∀ i, s.thread.block = some i ↔ i ∈ s.asyncRbb.blkList ∧ (s.asyncRbb.blkSet i).status = .get
  magic : ∀ i ∈ s.asyncRbb.blkList, (s.asyncRbb.blkSet i).status ≠ .inited →
    (s.frame i).magic = ulogFrameMagic

/-- The lines that the calls in progress are to write. -/
def callLines (calls : List OutputCall) : List UlogLine := calls.filterMap OutputCall.line

/-- The lines of the complete blocks. -/
def completeLines (r : Rbb) (frame : ℕ → UlogFrame) : List UlogLine :=
  (complete r).map fun i => (frame i).line

/-- The line that the output thread is to hand over. -/
def handingLine (frame : ℕ → UlogFrame) : AsyncPc → List UlogLine
  | .handing i => [(frame i).line]
  | _ => []

/-- The lines that have been accepted and are to be handed over. -/
def inHand (s : Ulog) : List UlogLine :=
  callLines s.calls ++ completeLines s.asyncRbb s.frame ++ handingLine s.frame s.thread

/-- The weight of what the output thread does before it waits. -/
def threadWeight (s : Ulog) : ℕ :=
  match s.thread with
  | .waiting => 0
  | .taking => if s.asyncNotice > 0 then 4 else 1
  | .resetting => 2
  | .getting => 3
  | .freeing _ => 4
  | .handing _ => 5

/-- How many steps are left at most without a new log call. -/
def remaining (s : Ulog) : ℕ :=
  s.threadWeight + 3 * (complete s.asyncRbb).length + (s.calls.map OutputCall.weight).sum

/-! ### What a step does -/

variable {s s' : Ulog} {a : UlogAction} {out : List UlogEvent} {r : Rbb} {i k : ℕ} {p size : UInt32}

/-- What a step has done. -/
inductive Outcome (s : Ulog) : UlogAction → Ulog → List UlogEvent → Prop
  | dropped (line : UlogLine) : Outcome s (.log line) s []
  | accepted (line : UlogLine) (i : ℕ) (p : UInt32)
      (hnew : i < s.asyncRbb.blkMaxNum ∧ (s.asyncRbb.blkSet i).status = .unused)
      (halloc : s.asyncRbb.rtRbbBlkAlloc line.blkSize =
        (s.asyncRbb.place i p line.blkSize, some i)) :
      Outcome s (.log line)
        { s with asyncRbb := s.asyncRbb.place i p line.blkSize,
                 calls := s.calls ++ [.filling i line] } [.accepted line]
  | put (k i : ℕ) (line : UlogLine) (hk : s.calls[k]? = some (.filling i line))
      (hst : (s.asyncRbb.blkSet i).status = .inited) :
      Outcome s (.put k)
        { s with asyncRbb := s.asyncRbb.setStatus i .put,
                 frame := update s.frame i ⟨ulogFrameMagic, line⟩,
                 calls := s.calls.set k .noticing } []
  | resumed (k : ℕ) (hk : s.calls[k]? = some .noticing) (ht : s.thread = .waiting) :
      Outcome s (.release k) { s with thread := .getting, calls := s.calls.eraseIdx k } []
  | counted (k : ℕ) (hk : s.calls[k]? = some .noticing) (ht : s.thread ≠ .waiting) :
      Outcome s (.release k)
        { s with asyncNotice := s.asyncNotice + 1, calls := s.calls.eraseIdx k } []
  | reset (ht : s.thread = .resetting) :
      Outcome s .thread { s with asyncNotice := 0, thread := .taking } []
  | taken (ht : s.thread = .taking) (hn : s.asyncNotice > 0) :
      Outcome s .thread { s with asyncNotice := s.asyncNotice - 1, thread := .getting } []
  | waits (ht : s.thread = .taking) (hn : ¬ s.asyncNotice > 0) :
      Outcome s .thread { s with thread := .waiting } []
  | got (i : ℕ) (ht : s.thread = .getting) (hi : i ∈ complete s.asyncRbb) :
      Outcome s .thread { s with asyncRbb := s.asyncRbb.setStatus i .get, thread := .handing i } []
  | empty (ht : s.thread = .getting) (hnil : complete s.asyncRbb = []) :
      Outcome s .thread { s with thread := .resetting } []
  | handed (i : ℕ) (ht : s.thread = .handing i) :
      Outcome s .thread { s with thread := .freeing i }
        (if (s.frame i).magic = ulogFrameMagic then [.handed (s.frame i).line] else [])
  | freed (i : ℕ) (ht : s.thread = .freeing i) :
      Outcome s .thread
        { s with asyncRbb := (s.asyncRbb.rtSlistRemove i).setStatus i .unused,
                 thread := .getting } []

theorem outcome_of_step (hs : s.step a = some (s', out)) : Outcome s a s' out := by
  cases a with
  | log line =>
    obtain ⟨r, hr⟩ : ∃ r, r = s.asyncRbb.rtRbbBlkAlloc line.blkSize := ⟨_, rfl⟩
    have halloc := hr
    rw [step, doOutput, ← hr] at hs
    rw [Rbb.rtRbbBlkAlloc] at hr
    split at hr
    · next new hnew =>
      split at hr
      · split at hr
        · next p hp =>
          subst hr
          cases hs
          exact .accepted line new p (Rbb.findEmptyBlkInSet_eq_some hnew) halloc.symm
        · subst hr
          cases hs
          exact .dropped line
      · subst hr
        cases hs
        exact .dropped line
    · subst hr
      cases hs
      exact .dropped line
  | put k =>
    simp only [step] at hs
    split at hs
    · next i line hk =>
      obtain ⟨r, hr, heq⟩ := map_eq_some_iff.1 hs
      cases heq
      rw [Rbb.rtRbbBlkPut] at hr
      split at hr <;> cases hr
      next hst => exact .put k i line hk hst
    · cases hs
  | release k =>
    simp only [step] at hs
    split at hs
    · next hk =>
      rw [rtSemRelease] at hs
      split at hs <;> cases hs
      · next ht => exact .resumed k hk ht
      · next ht => exact .counted k hk ht
    · cases hs
  | thread =>
    simp only [step, asyncStep] at hs
    split at hs
    · next ht =>
      cases hs
      exact .reset ht
    · next ht =>
      split at hs <;> cases hs
      · next hn => exact .taken ht hn
      · next hn => exact .waits ht hn
    · cases hs
    · next ht =>
      rw [Rbb.rtRbbBlkGet] at hs
      cases hfind : s.asyncRbb.blkList.find? fun i => (s.asyncRbb.blkSet i).status = .put with
      | some i =>
        rw [hfind] at hs
        cases hs
        have hput := find?_some hfind
        exact .got i ht (mem_filter.2 ⟨mem_of_find?_eq_some hfind, hput⟩)
      | none =>
        rw [hfind] at hs
        cases hs
        exact .empty ht (filter_eq_nil_iff.2 (find?_eq_none.1 hfind))
    · next i ht =>
      cases hs
      exact .handed i ht
    · next i ht =>
      obtain ⟨r, hr, heq⟩ := map_eq_some_iff.1 hs
      cases heq
      rw [Rbb.rtRbbBlkFree] at hr
      split at hr <;> cases hr
      exact .freed i ht

/-! ### The complete blocks -/

theorem filter_perm_cons {l : List ℕ} {f g : ℕ → Bool} (hl : l.Nodup) (hi : i ∈ l)
    (hf : f i = false) (hg : g i = true) (heq : ∀ j, j ≠ i → g j = f j) :
    (l.filter g).Perm (i :: l.filter f) := by
  have hnot : i ∉ l.filter f := by simp [hf]
  refine (perm_ext_iff_of_nodup (hl.filter g) (nodup_cons.2 ⟨hnot, hl.filter f⟩)).2 fun j => ?_
  by_cases hj : j = i
  · subst hj
    simp [hi, hg]
  · simp [hj, heq j hj]

theorem mem_complete : i ∈ complete r ↔ i ∈ r.blkList ∧ (r.blkSet i).status = .put := by
  rw [complete, mem_filter, decide_eq_true_iff]

theorem complete_place (hnot : i ∉ r.blkList) : complete (r.place i p size) = complete r := by
  have hsame : ∀ j ∈ r.blkList, (r.place i p size).blkSet j = r.blkSet j := by
    intro j hj
    refine update_of_ne ?_ ..
    rintro rfl
    exact hnot hj
  have hnew : ((r.place i p size).blkSet i).status = .inited := by simp [place]
  have hlist : (r.place i p size).blkList = r.blkList ++ [i] := rfl
  have hnil : [i].filter (fun j => ((r.place i p size).blkSet j).status = .put) = [] := by
    simp [hnew]
  rw [complete, hlist, filter_append, hnil, append_nil, complete]
  exact filter_congr fun j hj => by rw [hsame j hj]

theorem complete_put (hl : r.blkList.Nodup) (hi : i ∈ r.blkList)
    (hst : (r.blkSet i).status = .inited) :
    (complete (r.setStatus i .put)).Perm (i :: complete r) := by
  refine filter_perm_cons hl hi (by simp [hst]) (by simp [setStatus]) fun j hj => ?_
  simp [setStatus, hj]

theorem complete_get (hl : r.blkList.Nodup) (hi : i ∈ complete r) :
    (complete r).Perm (i :: complete (r.setStatus i .get)) := by
  obtain ⟨hi, hst⟩ := mem_complete.1 hi
  refine filter_perm_cons hl hi (by simp [setStatus]) (by simp [hst]) fun j hj => ?_
  simp [setStatus, hj]

theorem complete_free (hst : (r.blkSet i).status ≠ .put) :
    complete ((r.rtSlistRemove i).setStatus i .unused) = complete r := by
  have hlist : ((r.rtSlistRemove i).setStatus i .unused).blkList = r.blkList.filter (· ≠ i) := rfl
  rw [complete, hlist, List.filter_filter, complete]
  refine filter_congr fun j hj => ?_
  by_cases hji : j = i
  · subst hji
    simp [hst]
  · simp [setStatus, rtSlistRemove, hji]

/-! ### The owners of the blocks -/

theorem blocks_ulogInit (buf bufSize : UInt32) (blockSet : ℕ → RbbBlk) (n : ℕ)
    (frame : ℕ → UlogFrame) : Blocks (ulogInit buf bufSize blockSet n frame) := by
  have hlist : (ulogInit buf bufSize blockSet n frame).asyncRbb.blkList = [] := rfl
  have hunused : ∀ i < n, ((ulogInit buf bufSize blockSet n frame).asyncRbb.blkSet i).status =
      .unused := fun i hi => by simp [ulogInit, Rbb.rtRbbInit, hi]
  refine ⟨nodup_nil, fun i => ?_, nodup_nil, fun i => ?_, fun i => ?_, ?_⟩
  · rw [hlist]
    exact ⟨fun h => absurd h not_mem_nil, fun h => absurd (hunused i h.1) h.2⟩
  · rw [hlist]
    simp [ulogInit, Ulog.filled]
  · rw [hlist]
    simp [ulogInit, AsyncPc.block]
  · rw [hlist]
    exact fun i hi => absurd hi not_mem_nil

variable {calls : List OutputCall}

theorem calls_perm {c : OutputCall} (hk : calls[k]? = some c) :
    calls.Perm (c :: calls.eraseIdx k) ∧ ∀ c', (calls.set k c').Perm (c' :: calls.eraseIdx k) := by
  obtain ⟨hlt, hget⟩ := List.getElem?_eq_some_iff.1 hk
  refine ⟨?_, fun c' => List.set_perm_cons_eraseIdx hlt c'⟩
  have hperm := getElem_cons_eraseIdx_perm hlt
  rw [hget] at hperm
  exact hperm.symm

theorem filled_put {line : UlogLine}
    (hk : calls[k]? = some (.filling i line)) :
    (Ulog.filled calls).Perm (i :: Ulog.filled (calls.set k .noticing)) := by
  obtain ⟨hcalls, hset⟩ := calls_perm hk
  have hrest := ((hset .noticing).filterMap OutputCall.block).symm
  exact (hcalls.filterMap OutputCall.block).trans (hrest.cons i)

theorem filled_release (hk : calls[k]? = some .noticing) :
    (Ulog.filled calls).Perm (Ulog.filled (calls.eraseIdx k)) :=
  (calls_perm hk).1.filterMap _

theorem Blocks.same {t : AsyncPc} {n : UInt16} (h : Blocks s)
    (ht : t.block = s.thread.block) (hcalls : (Ulog.filled s.calls).Perm (Ulog.filled calls)) :
    Blocks { s with asyncNotice := n, thread := t, calls := calls } :=
  ⟨h.nodup, h.mem_list, hcalls.nodup_iff.1 h.nodup_filled,
    fun i => hcalls.mem_iff.symm.trans (h.filled i), fun i => by rw [ht, h.got i], h.magic⟩

/-- **One step**: the blocks in use keep or change their owners. -/
theorem blocks_step (h : Blocks s) (hs : s.step a = some (s', out)) : Blocks s' := by
  cases outcome_of_step hs with
  | dropped line => exact h
  | accepted line i p hnew halloc =>
    have hnot : i ∉ s.asyncRbb.blkList := fun hi => ((h.mem_list i).1 hi).2 hnew.2
    have hfilled : Ulog.filled (s.calls ++ [OutputCall.filling i line]) =
        Ulog.filled s.calls ++ [i] := by
      simp [Ulog.filled, OutputCall.block]
    have hnotf : i ∉ Ulog.filled s.calls := fun hi => hnot ((h.filled i).1 hi).1
    have hnotg : ¬ s.thread.block = some i := fun hi => hnot ((h.got i).1 hi).1
    refine ⟨?_, fun j => ?_, ?_, fun j => ?_, fun j => ?_, fun j hj => ?_⟩
    · exact nodup_append.2 ⟨h.nodup, nodup_singleton i, by
        rintro a ha b hb rfl
        exact hnot (mem_singleton.1 hb ▸ ha)⟩
    · by_cases hj : j = i
      · subst hj
        simp [place, hnew.1]
      · simpa [place, hj] using h.mem_list j
    · rw [hfilled]
      exact nodup_append.2 ⟨h.nodup_filled, nodup_singleton i, by
        rintro a ha b hb rfl
        exact hnotf (mem_singleton.1 hb ▸ ha)⟩
    · rw [hfilled]
      by_cases hj : j = i
      · subst hj
        simp [place]
      · simpa [place, hj] using h.filled j
    · by_cases hj : j = i
      · subst hj
        simp [place, hnotg]
      · simpa [place, hj] using h.got j
    · by_cases hji : j = i
      · subst hji
        simp [place]
      · simpa [place, hji] using h.magic j (by simpa [place, hji] using hj)
  | put k i line hk hst =>
    have hperm := filled_put hk
    obtain ⟨hnot, hnodup⟩ := nodup_cons.1 (hperm.nodup_iff.1 h.nodup_filled)
    have hi := ((h.filled i).1 (hperm.mem_iff.2 mem_cons_self)).1
    have hnotg : ¬ s.thread.block = some i := by
      intro hg
      have hget := ((h.got i).1 hg).2
      simp [hst] at hget
    refine ⟨h.nodup, fun j => ?_, hnodup, fun j => ?_, fun j => ?_, fun j hj hne => ?_⟩
    · by_cases hj : j = i
      · subst hj
        simpa [setStatus, hst] using h.mem_list j
      · simpa [setStatus, hj] using h.mem_list j
    · by_cases hj : j = i
      · subst hj
        simp [setStatus, hnot]
      · have hmem := hperm.mem_iff (a := j)
        simpa [setStatus, hj, hmem] using h.filled j
    · by_cases hj : j = i
      · subst hj
        simp [setStatus, hnotg]
      · simpa [setStatus, hj] using h.got j
    · by_cases hji : j = i
      · subst hji
        simp
      · simpa [hji] using h.magic j hj (by simpa [setStatus, hji] using hne)
  | resumed k hk ht => exact h.same (by rw [ht]; rfl) (filled_release hk)
  | counted k hk ht => exact h.same rfl (filled_release hk)
  | reset ht => exact h.same (by rw [ht]; rfl) (.refl _)
  | taken ht hn => exact h.same (by rw [ht]; rfl) (.refl _)
  | waits ht hn => exact h.same (by rw [ht]; rfl) (.refl _)
  | got i ht hi =>
    obtain ⟨hi, hst⟩ := mem_complete.1 hi
    have hnone : ∀ j, ¬ (j ∈ s.asyncRbb.blkList ∧ (s.asyncRbb.blkSet j).status = .get) := by
      intro j hj
      have hgot := (h.got j).2 hj
      rw [ht] at hgot
      cases hgot
    have hnotf : i ∉ Ulog.filled s.calls := by
      intro hf
      have hinit := ((h.filled i).1 hf).2
      simp [hst] at hinit
    refine ⟨h.nodup, fun j => ?_, h.nodup_filled, fun j => ?_, fun j => ?_, fun j hj hne => ?_⟩
    · by_cases hj : j = i
      · subst hj
        simpa [setStatus, hst] using h.mem_list j
      · simpa [setStatus, hj] using h.mem_list j
    · by_cases hj : j = i
      · subst hj
        simp [setStatus, hnotf]
      · simpa [setStatus, hj] using h.filled j
    · by_cases hj : j = i
      · subst hj
        simp [setStatus, AsyncPc.block, hi]
      · have hj' := hnone j
        simpa [setStatus, AsyncPc.block, hj, Ne.symm hj] using hj'
    · by_cases hji : j = i
      · subst hji
        exact h.magic j hj (by simp [hst])
      · exact h.magic j hj (by simpa [setStatus, hji] using hne)
  | empty ht hnil => exact h.same (by rw [ht]; rfl) (.refl _)
  | handed i ht => exact h.same (by rw [ht]; rfl) (.refl _)
  | freed i ht =>
    have hgot : s.thread.block = some i := by rw [ht]; rfl
    obtain ⟨hi, hst⟩ := (h.got i).1 hgot
    have hnotf : i ∉ Ulog.filled s.calls := by
      intro hf
      have hinit := ((h.filled i).1 hf).2
      simp [hst] at hinit
    refine ⟨h.nodup.filter _, fun j => ?_, h.nodup_filled, fun j => ?_, fun j => ?_,
      fun j hj hne => ?_⟩
    · by_cases hj : j = i
      · subst hj
        simp [setStatus, rtSlistRemove]
      · simpa [setStatus, rtSlistRemove, hj] using h.mem_list j
    · by_cases hj : j = i
      · subst hj
        simp [setStatus, hnotf]
      · simpa [setStatus, rtSlistRemove, hj] using h.filled j
    · by_cases hj : j = i
      · subst hj
        simp [setStatus, AsyncPc.block]
      · have hj' := h.got j
        rw [hgot] at hj'
        simpa [setStatus, rtSlistRemove, AsyncPc.block, hj, Ne.symm hj] using hj'
    · obtain ⟨hj, hji⟩ := mem_filter.1 hj
      have hji : j ≠ i := by simpa using hji
      exact h.magic j hj (by simpa [setStatus, rtSlistRemove, hji] using hne)

/-! ### The lines -/

/-- The lines that have been accepted. -/
def acceptedLines (tr : List UlogEvent) : List UlogLine :=
  tr.filterMap fun | .accepted line => some line | .handed _ => none

/-- The lines that have been handed over to the backends. -/
def handedLines (tr : List UlogEvent) : List UlogLine :=
  tr.filterMap fun | .handed line => some line | .accepted _ => none

theorem callLines_put {line : UlogLine}
    (hk : calls[k]? = some (.filling i line)) :
    (callLines calls).Perm (line :: callLines (calls.set k .noticing)) := by
  obtain ⟨hcalls, hset⟩ := calls_perm hk
  have hrest := ((hset .noticing).filterMap OutputCall.line).symm
  exact (hcalls.filterMap OutputCall.line).trans (hrest.cons line)

theorem callLines_release (hk : calls[k]? = some .noticing) :
    (callLines calls).Perm (callLines (calls.eraseIdx k)) :=
  (calls_perm hk).1.filterMap _

theorem completeLines_update {frame : ℕ → UlogFrame} {new : UlogFrame} (hi : i ∉ complete r) :
    completeLines r (update frame i new) = completeLines r frame := by
  refine map_congr_left fun j hj => ?_
  rw [update_of_ne]
  rintro rfl
  exact hi hj

theorem handingLine_update {frame : ℕ → UlogFrame} {new : UlogFrame} {t : AsyncPc}
    (hi : t.block ≠ some i) :
    handingLine (update frame i new) t = handingLine frame t := by
  cases t with
  | handing j =>
    have hj : j ≠ i := fun heq => hi (heq ▸ rfl)
    rw [handingLine, handingLine, update_of_ne hj]
  | _ => rfl

/-- **No line is lost**: a step leads from the lines in hand and the new one to those that it hands
over and those that are in hand then. -/
theorem inHand_step (h : Blocks s) (hs : s.step a = some (s', out)) :
    (s.inHand ++ acceptedLines out).Perm (handedLines out ++ s'.inHand) := by
  rw [perm_iff_count]
  intro x
  simp only [inHand, List.count_append]
  cases outcome_of_step hs with
  | dropped line => simp [acceptedLines, handedLines]
  | accepted line i p hnew halloc =>
    have hnot : i ∉ s.asyncRbb.blkList := fun hi => ((h.mem_list i).1 hi).2 hnew.2
    have hcalls : callLines (s.calls ++ [OutputCall.filling i line]) =
        callLines s.calls ++ [line] := by
      rw [callLines, filterMap_append]
      rfl
    rw [hcalls, List.count_append, completeLines, completeLines, complete_place hnot]
    dsimp only
    show _ + count x [line] = count x [] + _
    rw [count_nil]
    omega
  | put k i line hk hst =>
    have hi := ((h.filled i).1 ((filled_put hk).mem_iff.2 mem_cons_self)).1
    have hnot : i ∉ complete s.asyncRbb := by
      intro hc
      have hput := (mem_complete.1 hc).2
      simp [hst] at hput
    have hnotg : s.thread.block ≠ some i := by
      intro hg
      have hget := ((h.got i).1 hg).2
      simp [hst] at hget
    -- the line has been with the call, and is now in a complete block
    have hcalls : count x (callLines s.calls) =
        count x (line :: callLines (s.calls.set k .noticing)) := (callLines_put hk).count_eq x
    have hperm := (complete_put h.nodup hi hst).map fun j =>
      (update s.frame i ⟨ulogFrameMagic, line⟩ j).line
    have hlines : count x (completeLines (s.asyncRbb.setStatus i .put)
          (update s.frame i ⟨ulogFrameMagic, line⟩)) =
        count x (line :: completeLines s.asyncRbb s.frame) := by
      have hsame : completeLines s.asyncRbb (update s.frame i ⟨ulogFrameMagic, line⟩) =
          completeLines s.asyncRbb s.frame := completeLines_update hnot
      rw [← hsame]
      refine (hperm.count_eq x).trans ?_
      rw [map_cons, update_self]
      rfl
    rw [handingLine_update hnotg, hcalls, hlines, count_cons, count_cons]
    simp only [acceptedLines, handedLines, filterMap_nil, count_nil]
    omega
  | resumed k hk ht =>
    rw [(callLines_release hk).count_eq x, ht]
    simp [acceptedLines, handedLines, handingLine]
  | counted k hk ht =>
    rw [(callLines_release hk).count_eq x]
    simp [acceptedLines, handedLines]
  | reset ht => simp [handingLine, ht, acceptedLines, handedLines]
  | taken ht hn => simp [handingLine, ht, acceptedLines, handedLines]
  | waits ht hn => simp [handingLine, ht, acceptedLines, handedLines]
  | got i ht hi =>
    have hlines : count x (completeLines s.asyncRbb s.frame) = count x
        ((s.frame i).line :: completeLines (s.asyncRbb.setStatus i .get) s.frame) :=
      ((complete_get h.nodup hi).map fun j => (s.frame j).line).count_eq x
    rw [hlines, ht, count_cons]
    simp only [handingLine, acceptedLines, handedLines, filterMap_nil, count_nil, count_cons]
    omega
  | empty ht hnil => simp [handingLine, ht, acceptedLines, handedLines]
  | handed i ht =>
    have hgot : s.thread.block = some i := by rw [ht]; rfl
    obtain ⟨hi, hst⟩ := (h.got i).1 hgot
    have hmagic := h.magic i hi (by simp [hst])
    rw [if_pos hmagic, ht]
    dsimp only
    show _ + count x [(s.frame i).line] + count x [] = count x [(s.frame i).line] + (_ + count x [])
    rw [count_nil]
    omega
  | freed i ht =>
    have hgot : s.thread.block = some i := by rw [ht]; rfl
    have hst := ((h.got i).1 hgot).2
    rw [completeLines, completeLines, complete_free (by simp [hst])]
    simp [handingLine, ht, acceptedLines, handedLines]

/-! ### The steps that are left -/

/-- **Without a new log call**, every step brings the end nearer. -/
theorem remaining_step (h : Blocks s) (ha : ∀ line, a ≠ .log line)
    (hs : s.step a = some (s', out)) : s'.remaining < s.remaining := by
  simp only [remaining]
  cases outcome_of_step hs with
  | dropped line => exact absurd rfl (ha line)
  | accepted line => exact absurd rfl (ha line)
  | put k i line hk hst =>
    have hi := ((h.filled i).1 ((filled_put hk).mem_iff.2 mem_cons_self)).1
    obtain ⟨hcalls, hset⟩ := calls_perm hk
    have hbefore := (hcalls.map OutputCall.weight).sum_nat
    have hafter := ((hset .noticing).map OutputCall.weight).sum_nat
    have hlength := (complete_put h.nodup hi hst).length_eq
    simp only [map_cons, sum_cons, OutputCall.weight] at hbefore hafter
    simp only [length_cons] at hlength
    simp only [threadWeight]
    omega
  | resumed k hk ht =>
    have hbefore := ((calls_perm hk).1.map OutputCall.weight).sum_nat
    simp only [map_cons, sum_cons, OutputCall.weight] at hbefore
    simp only [threadWeight, ht]
    omega
  | counted k hk ht =>
    have hbefore := ((calls_perm hk).1.map OutputCall.weight).sum_nat
    simp only [map_cons, sum_cons, OutputCall.weight] at hbefore
    have hthread : threadWeight { s with asyncNotice := s.asyncNotice + 1 } ≤ s.threadWeight + 3 := by
      simp only [threadWeight]
      cases s.thread with
      | taking => dsimp only; split <;> split <;> omega
      | _ => exact Nat.le_add_right ..
    simp only [threadWeight] at hthread ⊢
    omega
  | reset ht => simp [threadWeight, ht]
  | taken ht hn => simp [threadWeight, ht, hn]
  | waits ht hn => simp [threadWeight, ht, hn]
  | got i ht hi =>
    have hlength := (complete_get h.nodup hi).length_eq
    simp only [length_cons] at hlength
    simp only [threadWeight, ht]
    omega
  | empty ht hnil => simp [threadWeight, ht]
  | handed i ht => simp [threadWeight, ht]
  | freed i ht =>
    have hgot : s.thread.block = some i := by rw [ht]; rfl
    have hst := ((h.got i).1 hgot).2
    rw [complete_free (by simp [hst])]
    simp [threadWeight, ht]

end Ulog

end RtThread
