import ActixSend.ManualShutdown
import ActixSend.Transition.Refinement

/-! # The life of a context

Seen from outside a context starts, handles messages, and stops; a restart
starts it again. The receive loop with everything in it is one stage of such a
life, and every run of the actor set shows each context's hooks in the order
this life allows.
-/

namespace ActixSend

open Transition
set_option autoImplicit false

variable {A : Actor}

/-- `gone` is the context whose task has panicked. -/
inductive LifeStage
  | waiting
  | running
  | leaving
  | stopped
  | gone
  deriving DecidableEq

structure Life where
  stage : LifeStage
  generation : Nat
  deriving DecidableEq

inductive Hook (A : Actor)
  | onStart
  | handled (env : Envelope A)
  | onStop

def Hook.isStart : Hook A → Bool
  | .onStart => true
  | _ => false

namespace Life

inductive Act (A : Actor)
  | onStart
  | handle (env : Envelope A)
  | restart
  | leave
  | onStop
  | panic

def new : Life := ⟨.waiting, 0⟩

/-- A context that is never restarted has one start. -/
def step (restartOnErr : Bool) (l : Life) : Act A → Option Life
  | .onStart => if l.stage = .waiting then some { l with stage := .running } else none
  | .handle _ => if l.stage = .running then some l else none
  | .restart =>
    if l.stage = .running ∧ restartOnErr = true then some ⟨.waiting, l.generation + 1⟩ else none
  | .leave => if l.stage = .running then some { l with stage := .leaving } else none
  | .onStop => if l.stage = .leaving then some { l with stage := .stopped } else none
  | .panic =>
    if l.stage = .stopped ∨ l.stage = .gone then none else some { l with stage := .gone }

def seen (m : Move Life (Act A)) : List (Hook A) :=
  match m.act with
  | .onStart => [.onStart]
  | .handle env => [.handled env]
  | .onStop => [.onStop]
  | _ => []

end Life

def Position.stage : Position A → LifeStage
  | .build => .waiting
  | .onStart => .waiting
  | .onStop => .leaving
  | .stopped => .stopped
  | .panicked => .gone
  | _ => .running

def Context.life (c : Context A) : Life := ⟨c.pos.stage, c.generation⟩

def State.life (s : State A) (i : Nat) : Life :=
  match s.contexts[i]? with
  | some c => c.life
  | none => ⟨.gone, 0⟩

def hooks (i : Nat) (m : Move (State A) (Act A)) : List (Hook A) :=
  match m.src.contexts[i]?, m.dst.contexts[i]? with
  | some c, some c' =>
    (if c.starts < c'.starts then [.onStart] else []) ++
      (((added State.handled m).filter fun x => x.context = i).map fun x => .handled x.env) ++
      if c.stops < c'.stops then [.onStop] else []
  | _, _ => []

section Steps
variable {s t : State A} {act : Act A} {i j : Nat} {c c' : Context A}

theorem life_at (hc : s.contexts[i]? = some c) : s.life i = c.life := by
  simp only [State.life, hc]

theorem hooks_at {new : List (Handled A)} (hc : s.contexts[i]? = some c)
    (hc' : t.contexts[i]? = some c') (hhandled : t.handled = s.handled ++ new) :
    hooks i ⟨s, act, t⟩ = (if c.starts < c'.starts then [.onStart] else []) ++
      ((new.filter fun x => x.context = i).map fun x => .handled x.env) ++
      if c.stops < c'.stops then [.onStop] else [] := by
  have hadded : added State.handled (⟨s, act, t⟩ : Move (State A) (Act A)) = new :=
    added_of_eq hhandled
  simp only [hooks, hc, hc', hadded]

theorem hooks_none (hc : s.contexts[i]? = none) : hooks i ⟨s, act, t⟩ = [] := by
  simp only [hooks, hc]

theorem hooks_other {new : List (Handled A)} (hsame : t.contexts[i]? = s.contexts[i]?)
    (hhandled : t.handled = s.handled ++ new) (hnew : ∀ x ∈ new, x.context ≠ i) :
    t.life i = s.life i ∧ hooks i ⟨s, act, t⟩ = [] := by
  refine ⟨by simp only [State.life, hsame], ?_⟩
  cases hc : s.contexts[i]? with
  | none => exact hooks_none hc
  | some c =>
    have hfilter : (new.filter fun x => x.context = i) = [] := by
      rw [List.filter_eq_nil_iff]
      intro x hx
      simpa using hnew x hx
    rw [hooks_at hc (hsame.trans hc) hhandled, hfilter]
    simp

def LivesOn (restartOnErr : Bool) (i : Nat) (m : Move (State A) (Act A)) : Prop :=
  m.dst.life i = m.src.life i ∧ hooks i m = [] ∨
    ∃ b, Life.step restartOnErr (m.src.life i) b = some (m.dst.life i) ∧
      Life.seen (A := A) ⟨m.src.life i, b, m.dst.life i⟩ = hooks i m

theorem livesOn_quiet {r : Bool} (hc : s.contexts[i]? = some c) (hc' : t.contexts[i]? = some c')
    (hhandled : t.handled = s.handled) (hlife : c'.life = c.life) (hstarts : c'.starts = c.starts)
    (hstops : c'.stops = c.stops) : LivesOn r i ⟨s, act, t⟩ := by
  refine .inl ⟨by rw [life_at hc, life_at hc', hlife], ?_⟩
  rw [hooks_at hc hc' (hhandled.trans (List.append_nil _).symm), hstarts, hstops]
  simp

theorem livesOn_step {r : Bool} {b : Life.Act A} {new : List (Handled A)}
    (hc : s.contexts[i]? = some c) (hc' : t.contexts[i]? = some c')
    (hhandled : t.handled = s.handled ++ new) (hstep : Life.step r c.life b = some c'.life)
    (hseen : Life.seen ⟨c.life, b, c'.life⟩ = (if c.starts < c'.starts then [.onStart] else []) ++
      ((new.filter fun x => x.context = i).map fun x => .handled x.env) ++
      if c.stops < c'.stops then [.onStop] else []) : LivesOn r i ⟨s, act, t⟩ := by
  refine .inr ⟨b, ?_, ?_⟩
  · rw [life_at hc, life_at hc', hstep]
  · rw [life_at hc, life_at hc', hseen, hooks_at hc hc' hhandled]

theorem livesOn_other {r : Bool} {new : List (Handled A)}
    (hsame : t.contexts[i]? = s.contexts[i]?) (hhandled : t.handled = s.handled ++ new)
    (hnew : ∀ x ∈ new, x.context ≠ i) : LivesOn r i ⟨s, act, t⟩ :=
  .inl (hooks_other hsame hhandled hnew)

theorem stage_of_hand {pos : Position A} {env : Envelope A} (h : pos.hand = some env) :
    pos.stage = .running := by
  cases pos <;> first | rfl | cases h

theorem stage_of_user {pos : Position A} (h : s.inUserCode pos = true) :
    pos.stage ≠ .stopped ∧ pos.stage ≠ .gone := by
  cases pos with
  | stopped | panicked => cases h
  | _ => exact ⟨by simp [Position.stage], by simp [Position.stage]⟩

theorem Turn.running {env : Envelope A} (h : Turn s c c') (hhand : c.pos.hand = some env)
    (hkept : c'.pos ≠ .panicked) :
    c'.life = c.life ∧ c'.starts = c.starts ∧ c'.stops = c.stops := by
  have hstage := stage_of_hand hhand
  cases h with
  | close => exact ⟨congrArg₂ Life.mk hstage.symm rfl, rfl, rfl⟩
  | hold _ hhand' =>
    exact ⟨congrArg₂ Life.mk ((stage_of_hand hhand').trans hstage.symm) rfl, rfl, rfl⟩
  | finish => exact ⟨congrArg₂ Life.mk hstage.symm rfl, rfl, rfl⟩
  | lose => exact absurd rfl hkept
  | build hpos | onStart hpos | incActive hpos | take hpos | leave hpos | restart hpos | stop hpos
  | onStop hpos =>
    rw [hpos] at hhand
    cases hhand

theorem Turn.livesOn {r : Bool} (h : Turn s c c') (hc : s.contexts[i]? = some c)
    (hc' : t.contexts[i]? = some c') (hhandled : t.handled = s.handled)
    (hr : s.cfg.restartOnErr = r) : LivesOn r i ⟨s, act, t⟩ := by
  have hnone : t.handled = s.handled ++ [] := by rw [hhandled, List.append_nil]
  have hstage : ∀ {pos : Position A}, c.pos = pos → c.life = ⟨pos.stage, c.generation⟩ := by
    rintro _ rfl
    rfl
  cases h with
  | build hpos => exact livesOn_quiet hc hc' hhandled (hstage hpos).symm rfl rfl
  | onStart hpos =>
    refine livesOn_step (b := .onStart) hc hc' hnone ?_ ?_
    · rw [hstage hpos]
      rfl
    · simp [Life.seen]
  | incActive hpos => exact livesOn_quiet hc hc' hhandled (hstage hpos).symm rfl rfl
  | take hpos | leave hpos => exact livesOn_quiet hc hc' hhandled (hstage hpos).symm rfl rfl
  | close hpos => exact livesOn_quiet hc hc' hhandled (hstage hpos).symm rfl rfl
  | hold hhand hhand' =>
    refine livesOn_quiet hc hc' hhandled ?_ rfl rfl
    rw [Context.life, Context.life, stage_of_hand hhand, stage_of_hand hhand']
  | finish hhand =>
    refine livesOn_quiet hc hc' hhandled ?_ rfl rfl
    rw [Context.life, Context.life, stage_of_hand hhand]
    rfl
  | lose hassert =>
    obtain ⟨env, hhand, _⟩ := hassert.exists_hand
    refine livesOn_step (b := .panic) hc hc' hnone ?_ ?_
    · rw [Context.life, stage_of_hand hhand]
      rfl
    · simp [Life.seen]
  | restart hpos _ hcfg =>
    refine livesOn_step (b := .restart) hc hc' hnone ?_ ?_
    · rw [hstage hpos, ← hr, hcfg]
      rfl
    · simp [Life.seen]
  | stop hpos =>
    refine livesOn_step (b := .leave) hc hc' hnone ?_ ?_
    · rw [hstage hpos]
      rfl
    · simp [Life.seen]
  | onStop hpos =>
    refine livesOn_step (b := .onStop) hc hc' hnone ?_ ?_
    · rw [hstage hpos]
      rfl
    · simp [Life.seen]

theorem ContextMove.livesOn {r : Bool} (h : ContextMove s i c t) (hc : s.contexts[i]? = some c)
    (hr : s.cfg.restartOnErr = r) : LivesOn r i ⟨s, act, t⟩ := by
  obtain ⟨c', hset, hturn⟩ := h.turn
  have hc' : t.contexts[i]? = some c' := by rw [hset, getElem?_set_self_of hc]
  cases h.ledgerMove hc with
  | same _ _ hhandled | take _ _ _ _ hhandled | lose _ _ _ hhandled =>
    exact hturn.livesOn hc hc' hhandled hr
  | @finish env reply hhand hledger _ hhandled =>
    have hkept : c'.pos ≠ .panicked := by
      intro hpos
      have hworker := ledger_worker hc'
      rw [hledger, hpos] at hworker
      simp [Ledger.finish, Position.worker] at hworker
    obtain ⟨hlife, hstarts, hstops⟩ := hturn.running hhand hkept
    have hrunning : c.life.stage = .running := stage_of_hand hhand
    refine livesOn_step (b := .handle env) hc hc' hhandled ?_ ?_
    · rw [hlife, Life.step, if_pos hrunning]
    · simp [Life.seen, hstarts, hstops]

theorem Moves.livesOn {r : Bool} (h : Moves s act t) (hr : s.cfg.restartOnErr = r) (i : Nat) :
    LivesOn r i ⟨s, act, t⟩ := by
  have hsame : ∀ {u : State A}, u.contexts = s.contexts → u.handled = s.handled →
      LivesOn r i ⟨s, act, u⟩ := by
    intro u hcontexts hhandled
    exact livesOn_other (by rw [hcontexts]) (hhandled.trans (List.append_nil _).symm)
      (List.forall_mem_nil _)
  cases h with
  | address h | request h | poll h => exact hsame (by rw [h.frame]) (by rw [h.frame])
  | elapseDelayed | elapseInterval => exact hsame rfl rfl
  | @context j chan await c _ hc h =>
    by_cases hij : j = i
    · subst hij
      exact h.livesOn hc hr
    · obtain ⟨c', hset, _⟩ := h.turn
      have hother : t.contexts[i]? = s.contexts[i]? := by rw [hset, List.getElem?_set_ne hij]
      cases h.ledgerMove hc with
      | same _ _ hhandled | take _ _ _ _ hhandled | lose _ _ _ hhandled =>
        exact livesOn_other hother (hhandled.trans (List.append_nil _).symm)
          (List.forall_mem_nil _)
      | finish _ _ _ _ hhandled =>
        refine livesOn_other hother hhandled ?_
        intro x hx
        obtain rfl := List.mem_singleton.mp hx
        exact hij
  | @panic j c _ hc h =>
    cases h with
    | panic huser =>
      by_cases hij : j = i
      · subst hij
        refine livesOn_step (b := .panic) hc (getElem?_set_self_of hc)
          (List.append_nil _).symm ?_ ?_
        · exact if_neg (not_or.mpr (stage_of_user huser))
        · simp [Life.seen]
      · exact livesOn_other (List.getElem?_set_ne hij) (List.append_nil _).symm
          (List.forall_mem_nil _)

end Steps

theorem contexts_refine (restartOnErr : Bool) (i : Nat) :
    Refines (step (A := A)) (Life.step restartOnErr) (fun s => s.life i)
      (fun s => s.cfg.restartOnErr = restartOnErr) (hooks i) Life.seen := by
  constructor
  · intro u act v hstep hu
    rw [(Moves.of_step hstep).cfg_eq, hu]
  · intro u act v hstep hu
    exact (Moves.of_step hstep).livesOn hu i

/-- The hooks of a life so far. -/
structure Life.Shows (restartOnErr : Bool) (l : Life) (xs : List (Hook A)) : Prop where
  starts : xs.countP Hook.isStart ≤ l.generation + 1
  waiting : l.stage = .waiting → xs.countP Hook.isStart = l.generation
  started : l.stage ≠ .waiting → l.stage ≠ .gone →
    xs.countP Hook.isStart = l.generation + 1
  stopped : l.stage = .stopped → ∃ ys, xs = ys ++ [.onStop] ∧ .onStop ∉ ys
  unstopped : l.stage ≠ .stopped → .onStop ∉ xs
  handled : ∀ ys env zs, xs = ys ++ .handled env :: zs → .onStart ∈ ys ∧ .onStop ∉ ys
  once : restartOnErr = false → l.generation = 0

theorem Life.shows_new (restartOnErr : Bool) : Life.Shows (A := A) restartOnErr .new [] := by
  constructor
  · exact Nat.zero_le _
  · exact fun _ => rfl
  · exact fun h => absurd rfl h
  · exact fun h => by cases h
  · simp
  · simp
  · exact fun _ => rfl

section Lives
variable {r : Bool} {l l' : Life} {xs : List (Hook A)}

theorem Life.Shows.quiet (h : Life.Shows r l xs) (hstops : l.stage ≠ .stopped)
    (hstops' : l'.stage ≠ .stopped)
    (hstarts : xs.countP Hook.isStart ≤ l'.generation + 1)
    (hwaiting : l'.stage = .waiting → xs.countP Hook.isStart = l'.generation)
    (hstarted : l'.stage ≠ .waiting → l'.stage ≠ .gone →
      xs.countP Hook.isStart = l'.generation + 1)
    (honce : r = false → l'.generation = 0) : Life.Shows r l' xs :=
  ⟨hstarts, hwaiting, hstarted, fun heq => absurd heq hstops', fun _ => h.unstopped hstops,
    h.handled, honce⟩

theorem Life.Shows.handled_concat (h : Life.Shows r l xs) {x : Hook A}
    (hx : ∀ env, x = .handled env → .onStart ∈ xs ∧ .onStop ∉ xs) {ys zs : List (Hook A)}
    {env : Envelope A} (heq : xs ++ [x] = ys ++ .handled env :: zs) :
    .onStart ∈ ys ∧ .onStop ∉ ys := by
  rcases append_singleton_split heq with ⟨rfl, hlast, _⟩ | ⟨rest, _, hrest⟩
  · exact hx env hlast.symm
  · exact h.handled ys env rest hrest

theorem Life.Shows.step {b : Life.Act A} (h : Life.Shows r l xs)
    (hstep : Life.step r l b = some l') : Life.Shows r l' (xs ++ Life.seen ⟨l, b, l'⟩) := by
  obtain ⟨stage, generation⟩ := l
  cases b with
  | onStart =>
    obtain ⟨hstage, hl'⟩ := (Option.ite_none_right_eq_some).mp hstep
    obtain rfl : stage = .waiting := hstage
    cases hl'
    have hcount := h.waiting rfl
    change xs.countP Hook.isStart = generation at hcount
    have hnext : (xs ++ [Hook.onStart]).countP Hook.isStart = generation + 1 := by
      rw [List.countP_append, hcount]
      rfl
    refine ⟨Nat.le_of_eq hnext, nofun, fun _ _ => hnext, nofun, ?_, ?_, h.once⟩
    · intro _ hmem
      rcases List.mem_append.mp hmem with hmem | hmem
      · exact h.unstopped (by simp) hmem
      · cases List.mem_singleton.mp hmem
    · intro ys env zs heq
      exact h.handled_concat (by simp) heq
  | handle env =>
    obtain ⟨hstage, hl'⟩ := (Option.ite_none_right_eq_some).mp hstep
    obtain rfl : stage = .running := hstage
    cases hl'
    have hcount := h.started (by simp) (by simp)
    have hnext : (xs ++ [Hook.handled env]).countP Hook.isStart = xs.countP Hook.isStart := by
      rw [List.countP_append]
      rfl
    have hmem : .onStart ∈ xs := by
      obtain ⟨x, hx, hstart⟩ := List.countP_pos_iff.mp
        (show 0 < xs.countP Hook.isStart by rw [hcount]; exact Nat.succ_pos _)
      cases x with
      | onStart => exact hx
      | handled | onStop => cases hstart
    have hstop : .onStop ∉ xs := h.unstopped (by simp)
    refine ⟨by rw [Life.seen, hnext]; exact h.starts, nofun,
      fun _ _ => by rw [Life.seen, hnext]; exact hcount, nofun, ?_, ?_, h.once⟩
    · intro _ hmem
      rcases List.mem_append.mp hmem with hmem | hmem
      · exact hstop hmem
      · cases List.mem_singleton.mp hmem
    · intro ys env' zs heq
      exact h.handled_concat (fun _ _ => ⟨hmem, hstop⟩) heq
  | restart =>
    obtain ⟨⟨hstage, hr⟩, hl'⟩ := (Option.ite_none_right_eq_some).mp hstep
    obtain rfl : stage = .running := hstage
    cases hl'
    have hcount := h.started (by simp) (by simp)
    rw [Life.seen, List.append_nil]
    refine h.quiet (by simp) (by simp) ?_ (fun _ => hcount) (by simp) ?_
    · have hle := h.starts
      simp only at hle ⊢
      omega
    · intro hfalse
      rw [hr] at hfalse
      cases hfalse
  | leave =>
    obtain ⟨hstage, hl'⟩ := (Option.ite_none_right_eq_some).mp hstep
    obtain rfl : stage = .running := hstage
    cases hl'
    rw [Life.seen, List.append_nil]
    exact h.quiet (by simp) (by simp) h.starts (by simp)
      (fun _ _ => h.started (by simp) (by simp)) h.once
  | onStop =>
    obtain ⟨hstage, hl'⟩ := (Option.ite_none_right_eq_some).mp hstep
    obtain rfl : stage = .leaving := hstage
    cases hl'
    have hcount := h.started (by simp) (by simp)
    have hnext : (xs ++ [Hook.onStop]).countP Hook.isStart = xs.countP Hook.isStart := by
      rw [List.countP_append]
      rfl
    refine ⟨by rw [Life.seen, hnext]; exact h.starts, nofun,
      fun _ _ => by rw [Life.seen, hnext]; exact hcount,
      fun _ => ⟨xs, rfl, h.unstopped (by simp)⟩, fun hne => absurd rfl hne, ?_, h.once⟩
    intro ys env zs heq
    exact h.handled_concat (by simp) heq
  | panic =>
    obtain ⟨hstage, hl'⟩ := (Option.ite_none_left_eq_some).mp hstep
    cases hl'
    rw [Life.seen, List.append_nil]
    exact h.quiet (fun heq => hstage (.inl heq)) (by simp) h.starts (by simp) (by simp) h.once

theorem Life.shows {ns : List (Move Life (Life.Act A))} (h : Path (Life.step r) .new ns l) :
    Life.Shows r l (ns.flatMap Life.seen) := by
  induction h with
  | nil => exact Life.shows_new r
  | snoc _ hstep ih =>
    rw [List.flatMap_append, List.flatMap_singleton]
    exact ih.step hstep

end Lives

section Runs
variable {cfg : Config} {build : Nat → A.State} {s t : State A}
  {ms : List (Move (State A) (Act A))}

theorem Started.life_new (h : Started cfg build s) {i : Nat} (hi : i < s.contexts.length) :
    s.life i = .new := by
  obtain ⟨w, rfl, hnew⟩ := h.exists_wiring
  have hc := List.getElem?_eq_getElem hi
  rw [life_at hc]
  obtain ⟨_, _, _, _, heq, rfl | rfl⟩ := hnew _ (List.getElem_mem hi)
  · rw [heq]
    rfl
  · rw [heq]
    rfl

/-- The hooks of a context, and the messages it handles, come in the order of a
life: a start, messages, perhaps a restart, and one stop at the end. -/
theorem hooks_in_order (hstart : Started cfg build s) (h : Path step s ms t) {i : Nat}
    {c : Context A} (hc : t.contexts[i]? = some c) :
    (∃ ns, Path (Life.step cfg.restartOnErr) .new ns c.life ∧
      ns.flatMap Life.seen = ms.flatMap (hooks i)) ∧
    Life.Shows cfg.restartOnErr c.life (ms.flatMap (hooks i)) := by
  have hlength : t.contexts.length = s.contexts.length :=
    h.invariant (I := fun u => u.contexts.length = s.contexts.length) rfl
      fun _ _ _ hstep hu => (Moves.of_step hstep).length_contexts.trans hu
  have hi : i < s.contexts.length := by
    rw [← hlength]
    exact (List.getElem?_eq_some_iff.mp hc).1
  have hcfg : s.cfg.restartOnErr = cfg.restartOnErr := by
    obtain ⟨w, rfl, _⟩ := hstart.exists_wiring
    rfl
  obtain ⟨ns, hns, hseen⟩ := (contexts_refine cfg.restartOnErr i).exists_path hcfg h
  rw [hstart.life_new hi, life_at hc] at hns
  refine ⟨⟨ns, hns, hseen⟩, ?_⟩
  rw [← hseen]
  exact Life.shows hns

/-- A context that is restarted after the last sender is gone. -/
theorem hooks_in_order_restart :
    let cfg := { Config.default with restartOnErr := true }
    ∃ ms t c, Path step (echoStart cfg) ms t ∧ t.contexts[0]? = some c ∧ c.generation = 1 ∧
      (∃ ns, Path (Life.step cfg.restartOnErr) .new ns c.life ∧
        ns.flatMap Life.seen = ms.flatMap (hooks 0)) ∧
      Life.Shows cfg.restartOnErr c.life (ms.flatMap (hooks 0)) := by
  obtain ⟨ms, t, hpath, _, _, hq⟩ := exists_path_of_checkedRun step
    (echoStart { Config.default with restartOnErr := true })
    [.context 0 0 (), .context 0 0 (), .address (.drop 0), .address (.release 0), .context 0 0 (),
      .context 0 0 (), .context 0 0 ()]
    (fun _ _ _ => true) (fun t => t.contexts[0]?.any fun c => c.generation == 1) (by decide)
  obtain ⟨c, hc, hgeneration⟩ := (Option.any_eq_true _ _).mp hq
  exact ⟨ms, t, c, hpath, hc, beq_iff_eq.mp hgeneration, hooks_in_order .start hpath hc⟩

end Runs

end ActixSend
