import Mathlib.Data.List.Range
import Mathlib.Data.List.Nodup
import ActixSend.Request

/-! # The builder's two ways to start an actor set

`Builder::start` and `Builder::start_with_arbiters` make the channels, wire one
receiver of the shared channel and, with `allow_broadcast`, one broadcast
channel to each context, and return the first address. Both have a path of
their own for a single context. On the arbiters the actor is built by the
context's own task, so such a context starts one position earlier.
-/

namespace ActixSend

open Function
set_option autoImplicit false

variable {A : Actor}

structure Wiring (A : Actor) where
  broadcastSenders : List Nat
  cap : Nat → Option Nat
  channels : Nat
  contexts : List (Context A)

def Context.new (id rx : Nat) (broadcastReceiver : Option Nat) (actor : A.State)
    (pos : Position A) : Context A where
  id := id
  generation := 0
  rx := rx
  selector := broadcastReceiver
  manualShutdown := false
  actor := actor
  pos := pos
  starts := 0
  stops := 0

namespace Wiring

def unboundedChannel : Wiring A := ⟨[], fun _ => none, 1, []⟩

def broadcastReceiver (w : Wiring A) (cfg : Config) (num : Nat) : Option Nat × Wiring A :=
  if cfg.allowBroadcast then
    (some w.channels, { w with
      broadcastSenders := w.broadcastSenders ++ [w.channels]
      cap := update w.cap w.channels (some num)
      channels := w.channels + 1 })
  else (none, w)

def spawn (w : Wiring A) (c : Context A) : Wiring A := { w with contexts := w.contexts ++ [c] }

/-- One round of the loop over `0..num`. -/
def addContext (cfg : Config) (build : Nat → A.State) (pos : Position A) (w : Wiring A) (i : Nat) :
    Wiring A :=
  let (rx, w) := w.broadcastReceiver cfg cfg.num
  w.spawn (.new i 0 rx (build i) pos)

end Wiring

def Address.new (cfg : Config) (txSubs : List Nat) : Address where
  txSubs := if cfg.allowBroadcast then some txSubs else none
  subs := if cfg.allowSubscribe then some 0 else none
  phase := .live

/-- The state once the builder returns its address. -/
def Wiring.finish (w : Wiring A) (cfg : Config) : State A where
  cfg := cfg
  strongCount := 1
  addresses := [.new cfg w.broadcastSenders]
  weaks := []
  upgrades := []
  cap := w.cap
  queue := fun _ => []
  nextId := 0
  active := 0
  handlers := []
  handlersLocked := false
  cells := []
  nextKey := 0
  futures := fun _ => none
  futuresLock := none
  contexts := w.contexts
  calls := []
  streams := []
  tasks := []
  accepted := []
  taken := []
  handled := []

namespace Builder

def start (cfg : Config) (build : Nat → A.State) : State A :=
  let w := Wiring.unboundedChannel
  match cfg.num with
  | 1 =>
    let (rx, w) := w.broadcastReceiver cfg 1
    (w.spawn (.new 0 0 rx (build 0) .onStart)).finish cfg
  | num => ((List.range num).foldl (Wiring.addContext cfg build .onStart) w).finish cfg

/-- The second component lists the arbiter each context is spawned on; `none`
is the `expect` on the arbiter's index. -/
def startWithArbiters (cfg : Config) (build : Nat → A.State) (arbiters : List Nat)
    (index : Option Nat) : Option (State A × List Nat) :=
  let w := Wiring.unboundedChannel
  match cfg.num with
  | 1 =>
    match arbiters[index.getD 0]? with
    | some arbiter => some ((w.spawn (.new 0 0 none (build 0) .build)).finish cfg, [arbiter])
    | none => none
  | num =>
    let len := arbiters.length
    match (List.range num).mapM fun i => arbiters[i % len]? with
    | some placed =>
      some (((List.range num).foldl (Wiring.addContext cfg build .build) w).finish cfg, placed)
    | none => none

end Builder

/-- Every context listens on the shared channel and, with `allow_broadcast`,
each on a channel of its own that the group of the first address sends to, so
that a broadcast has one copy for every context. -/
structure FullyWired (s : State A) : Prop where
  ids : s.contexts.map Context.id = List.range s.cfg.num
  shared : ∀ c ∈ s.contexts, c.rx = 0
  group : s.cfg.allowBroadcast = true → ∃ (addr : Address) (group : List Nat),
    s.addresses[0]? = some addr ∧ addr.txSubs = some group ∧ group.length = s.cfg.num ∧
    group.Nodup ∧ ∀ (k chan : Nat), group[k]? = some chan →
      ∃ c : Context A, s.contexts[k]? = some c ∧ c.selector = some chan
  reached : s.cfg.allowBroadcast = true → ∀ msg t, s.broadcast 0 msg = some t →
    ∀ c ∈ s.contexts, ∃ call ∈ t.calls, c.selector = some call.req.channel

section Loop
variable (cfg : Config) (build : Nat → A.State) (pos : Position A)

def wired (n : Nat) : Wiring A :=
  (List.range n).foldl (Wiring.addContext cfg build pos) .unboundedChannel

theorem wired_succ (n : Nat) :
    wired cfg build pos (n + 1) = (wired cfg build pos n).addContext cfg build pos n := by
  rw [wired, List.range_succ, List.foldl_append]
  rfl

/-- The channel the loop gives context `i` besides the shared one. -/
def selectorOf (i : Nat) : Option Nat := if cfg.allowBroadcast then some (i + 1) else none

theorem wired_channels (h : cfg.allowBroadcast = true) (n : Nat) :
    (wired cfg build pos n).channels = n + 1 ∧
      (wired cfg build pos n).broadcastSenders = (List.range n).map (· + 1) := by
  induction n with
  | zero => exact ⟨rfl, rfl⟩
  | succ n ih =>
    obtain ⟨hchannels, hsenders⟩ := ih
    rw [wired_succ, List.range_succ]
    simp only [Wiring.addContext, Wiring.broadcastReceiver, h, if_true, Wiring.spawn]
    simp [hchannels, hsenders]

theorem wired_contexts (n : Nat) : (wired cfg build pos n).contexts =
    (List.range n).map fun i => .new i 0 (selectorOf cfg i) (build i) pos := by
  induction n with
  | zero => rfl
  | succ n ih =>
    rw [wired_succ, List.range_succ, List.map_append, ← ih]
    cases h : cfg.allowBroadcast with
    | false => simp [Wiring.addContext, Wiring.broadcastReceiver, Wiring.spawn, h, selectorOf]
    | true =>
      have hchannels := (wired_channels cfg build pos h n).1
      simp [Wiring.addContext, Wiring.broadcastReceiver, Wiring.spawn, h, selectorOf, hchannels]

/-- The path for one context does what one round of the loop does. -/
theorem start_eq :
    Builder.start cfg build = (wired cfg build .onStart cfg.num).finish cfg := by
  unfold Builder.start
  split
  · rename_i h
    rw [h, wired_succ]
    simp only [Wiring.addContext, h]
    rfl
  · rfl

theorem broadcast_reaches {s t : State A} {msg : A.Message} {addr : Address} {group : List Nat}
    (haddr : s.addresses[0]? = some addr) (hgroup : addr.txSubs = some group)
    (h : s.broadcast 0 msg = some t) {chan : Nat} (hchan : chan ∈ group) :
    ∃ call ∈ t.calls, call.req.channel = chan := by
  simp only [State.broadcast, haddr, hgroup] at h
  split at h
  · cases h
    refine ⟨_, List.mem_append_right _ (List.mem_map.mpr ⟨chan, hchan, rfl⟩), rfl⟩
  · cases h

theorem finish_fullyWired : FullyWired ((wired cfg build pos cfg.num).finish cfg) := by
  have hgroup : cfg.allowBroadcast = true →
      (Address.new cfg (wired cfg build pos cfg.num).broadcastSenders).txSubs =
        some ((List.range cfg.num).map (· + 1)) := by
    intro h
    simp [Address.new, h, (wired_channels cfg build pos h cfg.num).2]
  constructor
  · simp [Wiring.finish, wired_contexts, Context.new, Function.comp_def]
  · intro c hc
    simp only [Wiring.finish, wired_contexts, List.mem_map] at hc
    obtain ⟨i, _, rfl⟩ := hc
    rfl
  · intro h
    refine ⟨_, _, rfl, hgroup h, by simp [Wiring.finish],
      List.nodup_range.map Nat.succ_injective, ?_⟩
    intro k chan hk
    change cfg.allowBroadcast = true at h
    rw [List.getElem?_map] at hk
    obtain ⟨i, hi, rfl⟩ := Option.map_eq_some_iff.mp hk
    simp only [Wiring.finish, wired_contexts, List.getElem?_map, hi]
    exact ⟨_, rfl, by simp [Context.new, selectorOf, h]⟩
  · intro h msg t ht c hc
    change cfg.allowBroadcast = true at h
    simp only [Wiring.finish, wired_contexts, List.mem_map] at hc
    obtain ⟨i, hi, rfl⟩ := hc
    obtain ⟨call, hcall, hchan⟩ := broadcast_reaches rfl (hgroup h) ht
      (List.mem_map.mpr ⟨i, hi, rfl⟩)
    exact ⟨call, hcall, by simp [Context.new, selectorOf, h, hchan]⟩

end Loop

theorem startWithArbiters_loop (cfg : Config) (build : Nat → A.State) {arbiters : List Nat}
    (index : Option Nat) (hnum : cfg.num ≠ 1) (harbiters : arbiters ≠ []) :
    ∃ placed, Builder.startWithArbiters cfg build arbiters index =
      some ((wired cfg build .build cfg.num).finish cfg, placed) := by
  have hlen : 0 < arbiters.length := List.length_pos_iff.mpr harbiters
  have hplaced : ∀ l : List Nat, ∃ placed,
      l.mapM (fun i => arbiters[i % arbiters.length]?) = some placed := by
    intro l
    induction l with
    | nil => exact ⟨[], rfl⟩
    | cons i l ih =>
      obtain ⟨placed, hplaced⟩ := ih
      have hi : i % arbiters.length < arbiters.length := Nat.mod_lt _ hlen
      exact ⟨arbiters[i % arbiters.length] :: placed, by simp [List.mapM_cons, hi, hplaced]⟩
  obtain ⟨placed, hplaced⟩ := hplaced (List.range cfg.num)
  refine ⟨placed, ?_⟩
  unfold Builder.startWithArbiters
  split
  · rename_i h
    exact absurd h hnum
  · simp only [hplaced]
    rfl

theorem startWithArbiters_one (cfg : Config) (build : Nat → A.State) {arbiters : List Nat}
    {index : Option Nat} (hnum : cfg.num = 1) (hindex : index.getD 0 < arbiters.length) :
    ∃ placed, Builder.startWithArbiters cfg build arbiters index =
      some ((Wiring.unboundedChannel.spawn (.new 0 0 none (build 0) .build)).finish cfg,
        placed) := by
  simp [Builder.startWithArbiters, hnum, hindex]

theorem one_fullyWired_iff (cfg : Config) (build : Nat → A.State) (hnum : cfg.num = 1) :
    FullyWired ((Wiring.unboundedChannel.spawn (.new 0 0 none (build 0) .build)).finish cfg) ↔
      cfg.allowBroadcast = false := by
  constructor
  · intro h
    by_contra hallow
    obtain ⟨addr, group, haddr, hgroup, hlen, _⟩ := h.group (by simpa [Wiring.finish] using hallow)
    obtain rfl : Address.new cfg [] = addr := by
      simpa [Wiring.finish, Wiring.unboundedChannel, Wiring.spawn] using haddr
    have hnil : cfg.allowBroadcast = true ∧ group = [] := by
      simpa [Address.new, hallow] using hgroup
    simp [hnil.2, Wiring.finish, hnum] at hlen
  · intro hallow
    have hfalse : ¬cfg.allowBroadcast = true := by simp [hallow]
    constructor
    · simp [Wiring.finish, Wiring.spawn, Wiring.unboundedChannel, Context.new, hnum]
    · simp [Wiring.finish, Wiring.spawn, Wiring.unboundedChannel, Context.new]
    · exact fun h => absurd h hfalse
    · exact fun h => absurd h hfalse

/-- The state an actor set is in when the builder returns its address. -/
inductive Started (cfg : Config) (build : Nat → A.State) : State A → Prop
  | start : Started cfg build (Builder.start cfg build)
  | startWithArbiters {arbiters : List Nat} {index : Option Nat} {s : State A} {placed : List Nat}
      (h : Builder.startWithArbiters cfg build arbiters index = some (s, placed)) :
      Started cfg build s

def Wiring.Unstarted (w : Wiring A) : Prop :=
  ∀ c ∈ w.contexts, ∃ id selector actor pos, c = Context.new id 0 selector actor pos ∧
    (pos = .onStart ∨ pos = .build)

theorem wired_unstarted (cfg : Config) (build : Nat → A.State) {pos : Position A}
    (hpos : pos = .onStart ∨ pos = .build) (n : Nat) : (wired cfg build pos n).Unstarted := by
  intro c hc
  rw [wired_contexts] at hc
  obtain ⟨i, _, rfl⟩ := List.mem_map.mp hc
  exact ⟨_, _, _, _, rfl, hpos⟩

theorem Started.exists_wiring {cfg : Config} {build : Nat → A.State} {s : State A}
    (h : Started cfg build s) : ∃ w : Wiring A, s = w.finish cfg ∧ w.Unstarted := by
  cases h with
  | start => exact ⟨_, start_eq cfg build, wired_unstarted cfg build (.inl rfl) _⟩
  | startWithArbiters h =>
    unfold Builder.startWithArbiters at h
    split at h
    · split at h
      · cases h
        refine ⟨_, rfl, ?_⟩
        intro c hc
        obtain rfl := List.mem_singleton.mp hc
        exact ⟨_, _, _, _, rfl, .inr rfl⟩
      · cases h
    · simp only at h
      split at h
      · cases h
        exact ⟨_, rfl, wired_unstarted cfg build (.inr rfl) _⟩
      · cases h

theorem Started.length_contexts {cfg : Config} {build : Nat → A.State} {s : State A}
    (h : Started cfg build s) : s.contexts.length = cfg.num := by
  cases h with
  | start => simp [start_eq, Wiring.finish, wired_contexts]
  | startWithArbiters h =>
    unfold Builder.startWithArbiters at h
    split at h
    · rename_i hnum
      split at h
      · cases h
        exact hnum.symm
      · cases h
    · simp only at h
      split at h
      · cases h
        change (wired cfg build .build cfg.num).contexts.length = cfg.num
        simp [wired_contexts]
      · cases h

theorem start_and_startWithArbiters_wire (cfg : Config) (build : Nat → A.State)
    (arbiters : List Nat) (index : Option Nat) (harbiters : arbiters ≠ [])
    (hindex : cfg.num = 1 → index.getD 0 < arbiters.length) :
    FullyWired (Builder.start cfg build) ∧
      ∃ s placed, Builder.startWithArbiters cfg build arbiters index = some (s, placed) ∧
        (FullyWired s ↔ ¬(cfg.num = 1 ∧ cfg.allowBroadcast = true)) := by
  refine ⟨start_eq cfg build ▸ finish_fullyWired cfg build .onStart, ?_⟩
  by_cases h : cfg.num = 1
  · obtain ⟨placed, hstart⟩ := startWithArbiters_one cfg build h (hindex h)
    refine ⟨_, placed, hstart, ?_⟩
    rw [one_fullyWired_iff cfg build h]
    simp [h]
  · obtain ⟨placed, hstart⟩ := startWithArbiters_loop cfg build index h harbiters
    exact ⟨_, placed, hstart, by simp [h, finish_fullyWired]⟩

theorem two_contexts_on_two_arbiters :
    let cfg := { Config.default with num := 2, allowBroadcast := true }
    FullyWired (Builder.start (A := echoActor) cfg fun _ => ()) ∧
      ∃ s placed, Builder.startWithArbiters (A := echoActor) cfg (fun _ => ()) [0, 1] none =
        some (s, placed) ∧ (FullyWired s ↔ ¬(cfg.num = 1 ∧ cfg.allowBroadcast = true)) :=
  start_and_startWithArbiters_wire (A := echoActor)
    { Config.default with num := 2, allowBroadcast := true } (fun _ => ()) [0, 1] none (by simp)
    (by simp)

/-- One context on one arbiter with `allow_broadcast` has an empty group. -/
theorem one_context_on_an_arbiter_misses_broadcasts :
    ¬∀ (cfg : Config) (arbiters : List Nat) (index : Option Nat), 1 ≤ cfg.num → arbiters ≠ [] →
      (cfg.num = 1 → index.getD 0 < arbiters.length) →
      ∃ s placed, Builder.startWithArbiters (A := echoActor) cfg (fun _ => ()) arbiters index =
        some (s, placed) ∧ FullyWired s := by
  intro hall
  obtain ⟨s, placed, hstart, hwired⟩ :=
    hall { Config.default with allowBroadcast := true } [0] none (by decide) (by simp) (by simp)
  cases hstart
  obtain ⟨addr, group, haddr, hgroup, hlen, _⟩ := hwired.group rfl
  cases haddr
  cases hgroup
  cases hlen

end ActixSend
