import ActixSend.Builder
import ActixSend.Lifetime
import ActixSend.Transition.Table

/-! # A finisher and the handlers that cancel it

`FinisherFuture::poll` and `FutureHandler::cancel` on the cell they share. Any
number of clones of the handler cancel, each call on its own thread. What a
call does under the lock is one action, the wake after the lock is released is
another, and the rest of the call, which removes an interval future, a third.
-/

namespace ActixSend

open Transition
set_option autoImplicit false

variable {A : Actor}

/-- How far a call of `FutureHandler::cancel` has come; `unlocked` carries the
waker it has taken out. -/
inductive CancelPhase
  | called
  | unlocked (opt : Option Nat)
  | woken
  | returned
  deriving DecidableEq, Repr

inductive Section
  | poll (waker : Nat) (ready : Bool)
  | cancel (k : Nat)
  deriving DecidableEq, Repr

/-- `sections` and `wakes` record what has happened and are read by no step; a
wake stands there with the call that made it. -/
structure Finisher where
  cell : CancelCell
  calls : List CancelPhase
  sections : List Section
  wakes : List (Nat × Nat)
  deriving DecidableEq, Repr

inductive FinisherAct
  | poll (waker : Nat)
  | cancel
  | lock (k : Nat)
  | wake (k : Nat)
  | remove (k : Nat)
  deriving DecidableEq, Repr

namespace Finisher

def new : Finisher := ⟨.new, [], [], []⟩

def poll (f : Finisher) (waker : Nat) : Finisher :=
  let (ready, cell) := f.cell.poll waker
  { f with cell := cell, sections := f.sections ++ [.poll waker ready] }

def cancel (f : Finisher) : Finisher := { f with calls := f.calls ++ [.called] }

def lock (f : Finisher) (k : Nat) : Option Finisher :=
  match f.calls[k]? with
  | some .called =>
    let (cell, opt) := f.cell.cancel
    some { f with
      cell := cell
      calls := f.calls.set k (.unlocked opt)
      sections := f.sections ++ [.cancel k] }
  | _ => none

def wake (f : Finisher) (k : Nat) : Option Finisher :=
  match f.calls[k]? with
  | some (.unlocked opt) =>
    some { f with
      calls := f.calls.set k .woken
      wakes := f.wakes ++ opt.toList.map fun waker => (k, waker) }
  | _ => none

def remove (f : Finisher) (k : Nat) : Option Finisher :=
  match f.calls[k]? with
  | some .woken => some { f with calls := f.calls.set k .returned }
  | _ => none

def step (f : Finisher) : FinisherAct → Option Finisher
  | .poll waker => some (f.poll waker)
  | .cancel => some f.cancel
  | .lock k => f.lock k
  | .wake k => f.wake k
  | .remove k => f.remove k

end Finisher

def lastPoll (sections : List Section) : Option Nat :=
  sections.foldl (fun last sec => match sec with
    | .poll waker _ => some waker
    | .cancel _ => last) none

def Cancels (sections : List Section) : Prop := ∃ k, .cancel k ∈ sections

/-- What holds after a run. Sections come in the order of the lock, so the first
call is the one whose section is the first that cancels. -/
structure NoLostCancellation (ms : List (Move Finisher FinisherAct)) (f : Finisher) : Prop where
  woken : ∀ ps k qs, f.sections = ps ++ .cancel k :: qs → ¬Cancels ps →
    f.calls[k]? = some .returned → ∀ waker, lastPoll ps = some waker → (k, waker) ∈ f.wakes
  ready : ∀ ps waker ready qs, f.sections = ps ++ .poll waker ready :: qs →
    (ready = true ↔ Cancels ps)
  settled : ∀ m ∈ ms, Cancels m.src.sections → m.dst.cell = m.src.cell ∧ m.src.cell.flag = true

inductive FinisherMove (f : Finisher) : FinisherAct → Finisher → Prop
  | poll (waker : Nat) : FinisherMove f (.poll waker) { f with
      cell := (f.cell.poll waker).2
      sections := f.sections ++ [.poll waker f.cell.flag] }
  | cancel : FinisherMove f .cancel { f with calls := f.calls ++ [.called] }
  | lock {k : Nat} (hk : f.calls[k]? = some .called) : FinisherMove f (.lock k) { f with
      cell := ⟨true, none⟩
      calls := f.calls.set k (.unlocked f.cell.waker)
      sections := f.sections ++ [.cancel k] }
  | wake {k : Nat} {opt : Option Nat} (hk : f.calls[k]? = some (.unlocked opt)) :
      FinisherMove f (.wake k) { f with
        calls := f.calls.set k .woken
        wakes := f.wakes ++ opt.toList.map fun waker => (k, waker) }
  | remove {k : Nat} (hk : f.calls[k]? = some .woken) :
      FinisherMove f (.remove k) { f with calls := f.calls.set k .returned }

theorem FinisherMove.of_step {f g : Finisher} {act : FinisherAct} (h : f.step act = some g) :
    FinisherMove f act g := by
  cases act with
  | poll waker =>
    cases h
    simp only [Finisher.poll, CancelCell.poll_fst]
    exact .poll waker
  | cancel =>
    cases h
    exact .cancel
  | lock k =>
    simp only [Finisher.step, Finisher.lock] at h
    split at h
    · cases h
      exact .lock ‹_›
    · cases h
  | wake k =>
    simp only [Finisher.step, Finisher.wake] at h
    split at h
    · cases h
      exact .wake ‹_›
    · cases h
  | remove k =>
    simp only [Finisher.step, Finisher.remove] at h
    split at h
    · cases h
      exact .remove ‹_›
    · cases h

theorem lastPoll_snoc (l : List Section) (sec : Section) :
    lastPoll (l ++ [sec]) = match sec with
      | .poll waker _ => some waker
      | .cancel _ => lastPoll l := by
  rw [lastPoll, List.foldl_append]
  cases sec <;> rfl

theorem cancels_snoc_poll {l : List Section} {waker : Nat} {ready : Bool} :
    Cancels (l ++ [.poll waker ready]) ↔ Cancels l := by
  simp [Cancels]

theorem cancels_snoc_cancel (l : List Section) (k : Nat) : Cancels (l ++ [.cancel k]) :=
  ⟨k, List.mem_concat_self⟩

/-- The phase of the first call, which takes out `last`, the waker stored before it. -/
inductive Wakes (wakes : List (Nat × Nat)) (k : Nat) (last : Option Nat) : CancelPhase → Prop
  | unlocked : Wakes wakes k last (.unlocked last)
  | woken (h : ∀ waker, last = some waker → (k, waker) ∈ wakes) : Wakes wakes k last .woken
  | returned (h : ∀ waker, last = some waker → (k, waker) ∈ wakes) : Wakes wakes k last .returned

structure FinisherInv (f : Finisher) : Prop where
  before : ¬Cancels f.sections → f.cell = ⟨false, lastPoll f.sections⟩
  after : Cancels f.sections → f.cell = ⟨true, none⟩
  entered : ∀ k, .cancel k ∈ f.sections → ∃ phase, f.calls[k]? = some phase ∧ phase ≠ .called
  first : ∀ ps k qs, f.sections = ps ++ .cancel k :: qs → ¬Cancels ps →
    ∃ phase, f.calls[k]? = some phase ∧ Wakes f.wakes k (lastPoll ps) phase
  ready : ∀ ps waker ready qs, f.sections = ps ++ .poll waker ready :: qs →
    (ready = true ↔ Cancels ps)

theorem Wakes.mono {wakes more : List (Nat × Nat)} {k : Nat} {last : Option Nat}
    {phase : CancelPhase} (h : Wakes wakes k last phase) :
    Wakes (wakes ++ more) k last phase := by
  cases h with
  | unlocked => exact .unlocked
  | woken h => exact .woken fun waker hlast => List.mem_append_left _ (h waker hlast)
  | returned h => exact .returned fun waker hlast => List.mem_append_left _ (h waker hlast)

theorem FinisherInv.flag_iff {f : Finisher} (hf : FinisherInv f) :
    f.cell.flag = true ↔ Cancels f.sections := by
  constructor
  · intro hflag
    by_contra hnone
    rw [hf.before hnone] at hflag
    cases hflag
  · intro hcancels
    rw [hf.after hcancels]

theorem finisherInv_new : FinisherInv .new := by
  constructor
  · intro _
    rfl
  · rintro ⟨k, hk⟩
    cases hk
  · intro k hk
    cases hk
  · intro ps k qs heq
    simp [Finisher.new] at heq
  · intro ps waker ready qs heq
    simp [Finisher.new] at heq

theorem FinisherInv.poll {f : Finisher} (hf : FinisherInv f) (waker : Nat) :
    FinisherInv { f with
      cell := (f.cell.poll waker).2
      sections := f.sections ++ [.poll waker f.cell.flag] } := by
  constructor
  · intro hnone
    rw [cancels_snoc_poll] at hnone
    simp only [hf.before hnone, lastPoll_snoc]
    rfl
  · intro hcancels
    rw [cancels_snoc_poll] at hcancels
    simp only [hf.after hcancels]
    rfl
  · intro k hk
    rcases List.mem_append.mp hk with hk | hk
    · exact hf.entered k hk
    · cases List.mem_singleton.mp hk
  · intro ps k qs heq hnone
    rcases append_singleton_split heq with ⟨_, hsec, _⟩ | ⟨rest, _, heq⟩
    · cases hsec
    · exact hf.first ps k rest heq hnone
  · intro ps waker' ready qs heq
    rcases append_singleton_split heq with ⟨rfl, hsec, _⟩ | ⟨rest, _, heq⟩
    · cases hsec
      exact hf.flag_iff
    · exact hf.ready ps waker' ready rest heq

theorem FinisherInv.lock {f : Finisher} (hf : FinisherInv f) {k : Nat}
    (hk : f.calls[k]? = some .called) :
    FinisherInv { f with
      cell := ⟨true, none⟩
      calls := f.calls.set k (.unlocked f.cell.waker)
      sections := f.sections ++ [.cancel k] } := by
  have hother : ∀ j, .cancel j ∈ f.sections → k ≠ j := by
    rintro j hj rfl
    obtain ⟨phase, hphase, hcalled⟩ := hf.entered k hj
    exact hcalled (Option.some.inj (hphase.symm.trans hk))
  constructor
  · intro hnone
    exact absurd (cancels_snoc_cancel _ _) hnone
  · intro _
    rfl
  · intro j hj
    rcases List.mem_append.mp hj with hj | hj
    · obtain ⟨phase, hphase, hcalled⟩ := hf.entered j hj
      exact ⟨phase, by rw [List.getElem?_set_ne (hother j hj), hphase], hcalled⟩
    · cases List.mem_singleton.mp hj
      exact ⟨_, getElem?_set_self_of hk, nofun⟩
  · intro ps j qs heq hnone
    rcases append_singleton_split heq with ⟨rfl, hsec, _⟩ | ⟨rest, _, heq⟩
    · cases hsec
      refine ⟨_, getElem?_set_self_of hk, ?_⟩
      rw [hf.before hnone]
      exact .unlocked
    · obtain ⟨phase, hphase, hwakes⟩ := hf.first ps j rest heq hnone
      have hmem : .cancel j ∈ f.sections := by simp [heq]
      exact ⟨phase, by rw [List.getElem?_set_ne (hother j hmem), hphase], hwakes⟩
  · intro ps waker ready qs heq
    rcases append_singleton_split heq with ⟨_, hsec, _⟩ | ⟨rest, _, heq⟩
    · cases hsec
    · exact hf.ready ps waker ready rest heq

theorem FinisherInv.leave {f : Finisher} (hf : FinisherInv f) {k : Nat}
    {phase phase' : CancelPhase} {more : List (Nat × Nat)} (hk : f.calls[k]? = some phase)
    (hcalled : phase' ≠ .called)
    (hwakes : ∀ last, Wakes f.wakes k last phase → Wakes (f.wakes ++ more) k last phase') :
    FinisherInv { f with calls := f.calls.set k phase', wakes := f.wakes ++ more } := by
  refine ⟨hf.before, hf.after, ?_, ?_, hf.ready⟩
  · intro j hj
    by_cases hkj : k = j
    · subst hkj
      exact ⟨phase', getElem?_set_self_of hk, hcalled⟩
    · obtain ⟨phase₀, hphase, hcalled₀⟩ := hf.entered j hj
      exact ⟨phase₀, by rw [List.getElem?_set_ne hkj, hphase], hcalled₀⟩
  · intro ps j qs heq hnone
    obtain ⟨phase₀, hphase, hfirst⟩ := hf.first ps j qs heq hnone
    by_cases hkj : k = j
    · subst hkj
      obtain rfl := Option.some.inj (hk.symm.trans hphase)
      exact ⟨phase', getElem?_set_self_of hk, hwakes _ hfirst⟩
    · exact ⟨phase₀, by rw [List.getElem?_set_ne hkj, hphase], hfirst.mono⟩

theorem FinisherInv.step {f g : Finisher} {act : FinisherAct} (h : f.step act = some g)
    (hf : FinisherInv f) : FinisherInv g := by
  cases FinisherMove.of_step h with
  | poll waker => exact hf.poll waker
  | cancel =>
    refine ⟨hf.before, hf.after, ?_, ?_, hf.ready⟩
    · intro k hk
      obtain ⟨phase, hphase, hcalled⟩ := hf.entered k hk
      exact ⟨phase, getElem?_append_of hphase, hcalled⟩
    · intro ps k qs heq hnone
      obtain ⟨phase, hphase, hwakes⟩ := hf.first ps k qs heq hnone
      exact ⟨phase, getElem?_append_of hphase, hwakes⟩
  | lock hk => exact hf.lock hk
  | @wake k opt hk =>
    refine hf.leave hk (show CancelPhase.woken ≠ .called from nofun) ?_
    rintro last ⟨⟩
    apply Wakes.woken
    rintro waker rfl
    exact List.mem_append_right _ (by simp)
  | @remove k hk =>
    have hnext : FinisherInv { f with
        calls := f.calls.set k .returned
        wakes := f.wakes ++ [] } := by
      refine hf.leave hk nofun ?_
      intro last hwakes
      rw [List.append_nil]
      cases hwakes with
      | woken h => exact .returned h
    rwa [List.append_nil] at hnext

theorem FinisherMove.settled {f g : Finisher} {act : FinisherAct} (h : FinisherMove f act g)
    (hcell : f.cell = ⟨true, none⟩) : g.cell = f.cell := by
  cases h with
  | poll waker => simp [hcell, CancelCell.poll]
  | lock => exact hcell.symm
  | _ => rfl

theorem no_lost_cancellation {ms : List (Move Finisher FinisherAct)} {f : Finisher}
    (h : Path Finisher.step .new ms f) : NoLostCancellation ms f := by
  have hinv : ∀ {ms g}, Path Finisher.step .new ms g → FinisherInv g := fun h =>
    h.invariant finisherInv_new fun _ _ _ hstep hu => hu.step hstep
  constructor
  · intro ps k qs heq hnone hreturned
    obtain ⟨phase, hphase, hwakes⟩ := (hinv h).first ps k qs heq hnone
    obtain rfl := Option.some.inj (hphase.symm.trans hreturned)
    cases hwakes with
    | returned h => exact h
  · exact (hinv h).ready
  · intro m hm hcancels
    obtain ⟨_, _, _, hsrc, hstep⟩ := h.exists_prefix hm
    have hcell := (hinv hsrc).after hcancels
    exact ⟨(FinisherMove.of_step hstep).settled hcell, by rw [hcell]⟩

def twoCancels : List FinisherAct :=
  [.poll 3, .cancel, .poll 5, .cancel, .lock 1, .lock 0, .wake 0, .poll 6, .wake 1, .remove 1]

theorem no_lost_cancellation_two_calls : ∃ ms f, Path Finisher.step .new ms f ∧
    f.calls[1]? = some .returned ∧ f.wakes = [(1, 5)] ∧ NoLostCancellation ms f := by
  obtain ⟨ms, f, hpath, _, _, hf⟩ := exists_path_of_checkedRun Finisher.step .new twoCancels
    (fun _ _ _ => true) (fun f => f.calls[1]? == some .returned && f.wakes == [(1, 5)]) (by decide)
  simp only [Bool.and_eq_true, beq_iff_eq] at hf
  exact ⟨ms, f, hpath, hf.1, hf.2, no_lost_cancellation hpath⟩

inductive CellOrigin (s : State A) (j : Nat) : CancelCell → Prop
  | new : CellOrigin s j .new
  | keep {cell : CancelCell} (hj : s.cells[j]? = some cell) : CellOrigin s j cell
  | poll {cell : CancelCell} (k : Nat) (hj : s.cells[j]? = some cell) :
      CellOrigin s j (cell.poll k).2
  | cancel {cell : CancelCell} (hj : s.cells[j]? = some cell) : CellOrigin s j cell.cancel.1

theorem cellOrigin_poll {s : State A} {i j k : Nat} {cancel cell : CancelCell}
    (hi : s.cells[i]? = some cancel) (hj : (s.cells.set i (cancel.poll k).2)[j]? = some cell) :
    CellOrigin s j cell := by
  rcases getElem?_set_cases hj with ⟨rfl, rfl⟩ | ⟨_, hj⟩
  · exact .poll k hi
  · exact .keep hj

theorem cellOrigin_spawn {s : State A} {j : Nat} {cell : CancelCell}
    (hj : (s.cells ++ [.new])[j]? = some cell) : CellOrigin s j cell := by
  rcases getElem?_append_cases hj with ⟨_, rfl⟩ | hj
  · exact .new
  · exact .keep hj

theorem cellOrigin_cancelHandler {s : State A} {h : FutureHandler} {j : Nat} {cell : CancelCell}
    (hj : (s.cancelHandler h).cells[j]? = some cell) : CellOrigin s j cell := by
  have hcells : (s.cancelHandler h).cells = s.cells.modify h.cell fun cell => cell.cancel.1 := by
    simp only [State.cancelHandler]
    split
    · split <;> rfl
    · rfl
  rw [hcells, List.getElem?_modify, Option.map_eq_map, Option.map_eq_some_iff] at hj
  obtain ⟨before, hj, rfl⟩ := hj
  split
  · exact .cancel hj
  · exact .keep hj

theorem Moves.cellOrigin {s t : State A} {act : Act A} {j : Nat} {cell : CancelCell}
    (h : Moves s act t) (hj : t.cells[j]? = some cell) : CellOrigin s j cell := by
  cases h with
  | address h =>
    cases h with
    | cancel => exact cellOrigin_cancelHandler hj
    | _ => exact .keep hj
  | request h =>
    cases h with
    | cancel => exact cellOrigin_cancelHandler hj
    | @answer _ call | @canceled _ call =>
      obtain ⟨address, req, phase⟩ := call
      cases req <;> exact .keep hj
    | _ => exact .keep hj
  | poll h =>
    cases h with
    | send | intervalSend =>
      rw [sendShared_frame] at hj
      exact .keep hj
    | delayedSend _ hcell =>
      rw [sendShared_frame] at hj
      exact cellOrigin_poll hcell hj
    | delayedDrop _ hcell | delayedWait _ hcell | intervalEnd _ hcell | intervalUpgrade _ hcell
    | intervalWait _ hcell => exact cellOrigin_poll hcell hj
  | elapseDelayed | elapseInterval => exact .keep hj
  | context hc h =>
    cases h with
    | delayed | insert => exact cellOrigin_spawn hj
    | close | reply =>
      rw [sendReply_frame] at hj
      exact .keep hj
    | static | dynamic =>
      rw [sendReplyTo_frame] at hj
      exact .keep hj
    | pushRefused | pushExtend =>
      simp only [State.afterPush] at hj
      split at hj <;> exact .keep hj
    | intervalRun =>
      simp only [State.runInterval] at hj
      split at hj <;> exact .keep hj
    | _ => exact .keep hj
  | panic _ h =>
    cases h
    exact .keep hj

def Reached (cell : CancelCell) : Prop :=
  ∃ ms f, Path Finisher.step .new ms f ∧ f.cell = cell

theorem CellOrigin.reached {s : State A} {j : Nat} {cell : CancelCell} (h : CellOrigin s j cell)
    (hs : ∀ cell, s.cells[j]? = some cell → Reached cell) : Reached cell := by
  cases h with
  | new => exact ⟨[], .new, .nil, rfl⟩
  | keep hj => exact hs _ hj
  | @poll cell k hj =>
    obtain ⟨ms, f, hpath, rfl⟩ := hs _ hj
    have hstep : f.step (.poll k) = some (f.poll k) := rfl
    exact ⟨_, _, hpath.snoc hstep, rfl⟩
  | @cancel cell hj =>
    obtain ⟨ms, f, hpath, rfl⟩ := hs _ hj
    have hcall : f.cancel.calls[f.calls.length]? = some .called := by simp [Finisher.cancel]
    have hlock : f.cancel.step (.lock f.calls.length) = some { f.cancel with
        cell := ⟨true, none⟩
        calls := f.cancel.calls.set f.calls.length (.unlocked f.cell.waker)
        sections := f.sections ++ [.cancel f.calls.length] } := by
      simp only [Finisher.step, Finisher.lock, hcall]
      rfl
    exact ⟨_, _, (hpath.snoc (show f.step .cancel = some f.cancel from rfl)).snoc hlock, rfl⟩

theorem reached_of_path {cfg : Config} {build : Nat → A.State} {s t : State A}
    {ms : List (Move (State A) (Act A))} (hstart : Started cfg build s)
    (h : Path ActixSend.step s ms t) {j : Nat} {cell : CancelCell}
    (hj : t.cells[j]? = some cell) : Reached cell := by
  refine h.invariant (I := fun u => ∀ j cell, u.cells[j]? = some cell → Reached cell) ?_ ?_ j cell
    hj
  · obtain ⟨w, rfl, _⟩ := hstart.exists_wiring
    simp [Wiring.finish]
  · intro u act v hstep hu j cell hj
    exact ((Moves.of_step hstep).cellOrigin hj).reached (hu j)

end ActixSend
