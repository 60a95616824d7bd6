import ActixSend.Builder
import ActixSend.Moves
import ActixSend.Transition.Table

/-! # The life of an actor set's addresses

`strong_count` counts the addresses, an address under construction by `upgrade`
from its `fetch_add` on. `Drop` compares with zero the value that `fetch_sub`
answers, which is the count before; the drop of the last address sees one. So
`ActorState::shutdown` is never called, and `MARKER` is never set.

The broadcast group is held by addresses alone, while the channel's sender is
held by streams and tasks too. `upgrade` expects the first whenever it has got
the second.
-/

namespace ActixSend

open Transition
set_option autoImplicit false

variable {A : Actor}

namespace State

def countedUpgrades (s : State A) : Nat := s.upgrades.countP fun u => u.phase == .counted

/-- The `fetch_add`s whose address was lost to the `expect`. -/
def leakedUpgrades (s : State A) : Nat := s.upgrades.countP fun u => u.phase == .panicked

/-- The live `Address` values, one under construction from its `fetch_add` on. -/
def addressValues (s : State A) : Nat := s.liveAddresses + s.countedUpgrades

end State

theorem Moves.address_or_same {s t : State A} {act : Act A} (h : Moves s act t) :
    (∃ act', act = .address act' ∧ AddressMove s act' t) ∨
      (t.strongCount = s.strongCount ∧ t.addresses = s.addresses ∧ t.upgrades = s.upgrades ∧
        t.weaks = s.weaks ∧ t.handlersLocked = s.handlersLocked) := by
  cases h with
  | address h => exact .inl ⟨_, rfl, h⟩
  | request h =>
    rw [h.frame]
    exact .inr ⟨rfl, rfl, rfl, rfl, rfl⟩
  | poll h =>
    rw [h.frame]
    exact .inr ⟨rfl, rfl, rfl, rfl, rfl⟩
  | elapseDelayed | elapseInterval => exact .inr ⟨rfl, rfl, rfl, rfl, rfl⟩
  | context hc h =>
    rw [h.frame]
    exact .inr ⟨rfl, rfl, rfl, rfl, rfl⟩
  | panic hc h =>
    rw [h.frame]
    exact .inr ⟨rfl, rfl, rfl, rfl, rfl⟩

theorem cancelHandler_frame (s : State A) (h : FutureHandler) :
    s.cancelHandler h = { s with
      cells := (s.cancelHandler h).cells, tasks := (s.cancelHandler h).tasks } := by
  simp only [State.cancelHandler]
  split
  · split <;> rfl
  · rfl

structure CountInv (s : State A) : Prop where
  count : s.strongCount = s.addressValues + s.leakedUpgrades
  noShutdown : ∀ addr ∈ s.addresses, ∀ pos, addr.phase ≠ .shutdown pos

theorem liveAddresses_pos {s : State A} {a : Nat} {addr : Address}
    (ha : s.addresses[a]? = some addr) (hlive : addr.isLive = true) : 0 < s.liveAddresses :=
  List.countP_pos_iff.mpr ⟨addr, List.mem_of_getElem? ha, hlive⟩

theorem phase_of_isLive {addr : Address} (h : addr.isLive = true) : addr.phase = .live := by
  simpa [Address.isLive] using h

theorem liveAddresses_drop {s : State A} {a : Nat} {addr : Address} (phase : AddressPhase)
    (ha : s.addresses[a]? = some addr) (hlive : addr.isLive = true) (hphase : phase ≠ .live) :
    (s.addresses.set a { addr with phase := phase }).countP Address.isLive + 1 =
      s.liveAddresses := by
  have hcount := countP_set_add (b := { addr with phase := phase }) (p := Address.isLive) ha
  have hdead : ({ addr with phase := phase } : Address).isLive = false := by
    simpa [Address.isLive] using hphase
  simpa [hlive, hdead, State.liveAddresses] using hcount

theorem count_of_dropping {s t : State A} {a : Nat} {addr : Address} {phase : AddressPhase}
    (hcount : s.strongCount = s.addressValues + s.leakedUpgrades)
    (ha : s.addresses[a]? = some addr) (hdead : addr.phase ≠ .live) (hphase : phase ≠ .live)
    (haddresses : t.addresses = s.addresses.set a { addr with phase := phase })
    (hstrong : t.strongCount = s.strongCount) (hupgrades : t.upgrades = s.upgrades) :
    t.strongCount = t.addressValues + t.leakedUpgrades := by
  have hsame := countP_set_of_eq (b := { addr with phase := phase }) (p := Address.isLive) ha
    (by simp [Address.isLive, hdead, hphase])
  simpa only [State.addressValues, State.liveAddresses, State.countedUpgrades,
    State.leakedUpgrades, haddresses, hsame, hstrong, hupgrades] using hcount

theorem strongCount_ne_zero {s : State A} {a : Nat} {addr : Address}
    (hcount : s.strongCount = s.addressValues + s.leakedUpgrades)
    (ha : s.addresses[a]? = some addr) (hlive : addr.isLive = true) :
    (s.strongCount == 0) = false := by
  have hpos := liveAddresses_pos ha hlive
  have hne : s.strongCount ≠ 0 := by
    simp only [State.addressValues] at hcount
    omega
  simpa using hne

theorem AddressMove.count {s t : State A} {act : AddressAct} (h : AddressMove s act t)
    (hcount : s.strongCount = s.addressValues + s.leakedUpgrades) :
    t.strongCount = t.addressValues + t.leakedUpgrades := by
  have hbefore := hcount
  simp only [State.addressValues, State.liveAddresses, State.countedUpgrades,
    State.leakedUpgrades] at hcount ⊢
  cases h with
  | clone ha hlive =>
    simp only [List.countP_append, List.countP_singleton, hlive, if_true]
    omega
  | drop ha hlive hfree =>
    have htest := strongCount_ne_zero hbefore ha hlive
    have hdrop := liveAddresses_drop .fields ha hlive (by simp)
    simp only [State.liveAddresses, State.setAddress, htest, Bool.false_eq_true, if_false]
      at hdrop ⊢
    omega
  | cancel ha hpos =>
    rw [cancelHandler_frame]
    exact count_of_dropping hbefore ha (by simp [hpos]) (by simp) rfl rfl rfl
  | marker ha hpos | lock ha hpos | unlock ha hpos | release ha hpos =>
    exact count_of_dropping hbefore ha (by simp [hpos]) (by simp) rfl rfl rfl
  | downgrade => exact hcount
  | upgradeSender => simpa [List.countP_append] using hcount
  | @upgradeCount _ up hu hphase =>
    have hcounted := countP_set_add (b := { up with phase := UpgradePhase.counted })
      (p := fun u => u.phase == .counted) hu
    have hleaked := countP_set_of_eq (b := { up with phase := UpgradePhase.counted })
      (p := fun u => u.phase == .panicked) hu (by simp [hphase])
    simp only [hleaked]
    simp [hphase] at hcounted
    omega
  | @upgradeReturn _ up hu hphase =>
    have hcounted := countP_set_add (b := { up with phase := UpgradePhase.returned })
      (p := fun u => u.phase == .counted) hu
    have hleaked := countP_set_of_eq (b := { up with phase := UpgradePhase.returned })
      (p := fun u => u.phase == .panicked) hu (by simp [hphase])
    simp only [hleaked, List.countP_append, List.countP_singleton]
    simp [hphase] at hcounted
    simp [Address.isLive]
    omega
  | @upgradePanic _ up hu hphase =>
    have hcounted := countP_set_add (b := { up with phase := UpgradePhase.panicked })
      (p := fun u => u.phase == .counted) hu
    have hleaked := countP_set_add (b := { up with phase := UpgradePhase.panicked })
      (p := fun u => u.phase == .panicked) hu
    simp [hphase] at hcounted hleaked
    dsimp only
    omega

theorem Moves.count {s t : State A} {act : Act A} (h : Moves s act t)
    (hcount : s.strongCount = s.addressValues + s.leakedUpgrades) :
    t.strongCount = t.addressValues + t.leakedUpgrades := by
  rcases h.address_or_same with ⟨_, _, h⟩ | ⟨hsame, haddr, hup, _⟩
  · exact h.count hcount
  · simpa only [State.addressValues, State.liveAddresses, State.countedUpgrades,
      State.leakedUpgrades, hsame, haddr, hup] using hcount

/-- Only a drop that finds the count at zero starts a shutdown, and none does. -/
theorem Moves.shutdown_cases {s t : State A} {act : Act A} (h : Moves s act t)
    (hcount : s.strongCount = s.addressValues + s.leakedUpgrades) {b : Nat} {addr : Address}
    {pos : Shutdown} (hb : t.addresses[b]? = some addr) (hphase : addr.phase = .shutdown pos) :
    ∃ (addr : Address) (pos : Shutdown), s.addresses[b]? = some addr ∧
      addr.phase = .shutdown pos := by
  rcases h.address_or_same with ⟨_, _, h⟩ | ⟨_, haddr, _⟩
  · have hset : ∀ {a : Nat} {addr' : Address} {phase : AddressPhase},
        s.addresses[a]? = some addr' → (phase = addr.phase → ∃ pos, addr'.phase = .shutdown pos) →
        (s.addresses.set a { addr' with phase := phase })[b]? = some addr →
        ∃ (addr : Address) (pos : Shutdown), s.addresses[b]? = some addr ∧
          addr.phase = .shutdown pos := by
      intro a addr' phase ha hbefore hb
      rcases getElem?_set_cases hb with ⟨rfl, rfl⟩ | ⟨_, hb⟩
      · obtain ⟨pos, hpos⟩ := hbefore rfl
        exact ⟨addr', pos, ha, hpos⟩
      · exact ⟨addr, pos, hb, hphase⟩
    have happend : ∀ new : Address, new.phase = .live → (s.addresses ++ [new])[b]? = some addr →
        ∃ (addr : Address) (pos : Shutdown), s.addresses[b]? = some addr ∧
          addr.phase = .shutdown pos := by
      intro new hnew hb
      rcases getElem?_append_cases hb with ⟨_, rfl⟩ | hb
      · rw [hnew] at hphase
        cases hphase
      · exact ⟨addr, pos, hb, hphase⟩
    cases h with
    | clone ha hlive => exact happend _ (phase_of_isLive hlive) hb
    | drop ha hlive =>
      refine hset ha (fun heq => ?_) hb
      rw [strongCount_ne_zero hcount ha hlive, hphase] at heq
      cases heq
    | marker ha hpos | lock ha hpos => exact hset ha (fun _ => ⟨_, hpos⟩) hb
    | cancel ha hpos =>
      rw [cancelHandler_frame] at hb
      exact hset ha (fun _ => ⟨_, hpos⟩) hb
    | unlock ha | release ha =>
      refine hset ha (fun heq => ?_) hb
      rw [hphase] at heq
      cases heq
    | upgradeReturn => exact happend _ rfl hb
    | downgrade | upgradeSender | upgradeCount | upgradePanic => exact ⟨addr, pos, hb, hphase⟩
  · rw [haddr] at hb
    exact ⟨addr, pos, hb, hphase⟩

theorem CountInv.step {s t : State A} {act : Act A} (h : step s act = some t) (hs : CountInv s) :
    CountInv t := by
  have hmove := Moves.of_step h
  refine ⟨hmove.count hs.count, ?_⟩
  intro addr haddr pos hpos
  obtain ⟨b, hb⟩ := List.mem_iff_getElem?.mp haddr
  obtain ⟨addr', pos', hb', hpos'⟩ := hmove.shutdown_cases hs.count hb hpos
  exact hs.noShutdown addr' (List.mem_of_getElem? hb') pos' hpos'

theorem Started.countInv {cfg : Config} {build : Nat → A.State} {s : State A}
    (h : Started cfg build s) : CountInv s := by
  obtain ⟨w, rfl, _⟩ := h.exists_wiring
  constructor
  · simp [Wiring.finish, Address.new, State.addressValues, State.liveAddresses,
      State.countedUpgrades, State.leakedUpgrades, Address.isLive]
  · simp [Wiring.finish, Address.new]

section Runs
variable {cfg : Config} {build : Nat → A.State} {s t : State A} {ms : List (Move (State A) (Act A))}

theorem countInv_of_path (hstart : Started cfg build s) (h : Path step s ms t) : CountInv t :=
  h.invariant hstart.countInv fun _ _ _ hstep hu => hu.step hstep

/-- The move is the `expect` of `upgrade` on a group that is gone. -/
def UpgradePanics (m : Move (State A) (Act A)) : Prop :=
  ∃ u up, m.act = .address (.upgradeGroup u) ∧ m.dst.upgrades[u]? = some up ∧ up.phase = .panicked

theorem leakedUpgrades_of_path (hstart : Started cfg build s) (h : Path step s ms t)
    (hup : ∀ m ∈ ms, ¬UpgradePanics m) : t.leakedUpgrades = 0 := by
  refine h.invariant_of (I := fun s => s.leakedUpgrades = 0) hup ?_ ?_
  · obtain ⟨w, rfl, _⟩ := hstart.exists_wiring
    rfl
  · intro u act v hC hstep hu
    rcases (Moves.of_step hstep).address_or_same with ⟨act', rfl, hmove⟩ | ⟨_, _, hsame, _⟩
    · simp only [State.leakedUpgrades] at hu ⊢
      cases hmove with
      | @upgradeCount _ up hu' hphase =>
        rwa [countP_set_of_eq hu' (by simp [hphase])]
      | @upgradeReturn _ up hu' hphase =>
        rwa [countP_set_of_eq hu' (by simp [hphase])]
      | @upgradePanic _ up hu' hphase =>
        exact absurd ⟨_, _, rfl, getElem?_set_self_of hu', rfl⟩ hC
      | upgradeSender => simpa [List.countP_append] using hu
      | @cancel _ _ handler =>
        simp only [State.setAddress]
        rwa [cancelHandler_frame]
      | _ => exact hu
    · rwa [State.leakedUpgrades, hsame]

def RunsShutdown (s : State A) (a : Nat) : Prop :=
  ∃ addr pos, s.addresses[a]? = some addr ∧ addr.phase = .shutdown pos

/-- In every state `strong_count` is the number of live addresses, and a drop
runs the shutdown exactly when it leaves none. -/
structure ShutdownByLastDrop (s : State A) (ms : List (Move (State A) (Act A))) : Prop where
  count : ∀ u ∈ visited s ms, u.strongCount = u.addressValues
  shutdown : ∀ m ∈ ms, ∀ a, m.act = .address (.drop a) →
    (RunsShutdown m.dst a ↔ m.dst.addressValues = 0)

theorem addressValues_drop {s u : State A} {a : Nat} (h : AddressMove s (.drop a) u) :
    u.addressValues + 1 = s.addressValues := by
  cases h with
  | drop ha hlive =>
    have hdrop := liveAddresses_drop (if s.strongCount == 0 then .shutdown .marker else .fields)
      ha hlive (by split <;> simp)
    simp only [State.addressValues, State.liveAddresses, State.countedUpgrades,
      State.setAddress] at hdrop ⊢
    omega

theorem shutdown_by_last_drop_iff (hstart : Started cfg build s) (h : Path step s ms t)
    (hup : ∀ m ∈ ms, ¬UpgradePanics m) :
    ShutdownByLastDrop s ms ↔
      ∀ m ∈ ms, ∀ a, m.act = .address (.drop a) → 1 < m.src.addressValues := by
  have hcount : ∀ u ∈ visited s ms, u.strongCount = u.addressValues := by
    intro u hu
    obtain ⟨ps, hps, hsub⟩ := h.exists_path_to hu
    have hleaked := leakedUpgrades_of_path hstart hps fun m hm => hup m (hsub m hm)
    rw [(countInv_of_path hstart hps).count, hleaked, Nat.add_zero]
  have hnever : ∀ m ∈ ms, ∀ a, ¬RunsShutdown m.dst a := by
    rintro m hm a ⟨addr, pos, haddr, hphase⟩
    obtain ⟨ps, _, _, hps, hstep⟩ := h.exists_prefix hm
    exact (countInv_of_path hstart (hps.snoc hstep)).noShutdown addr
      (List.mem_of_getElem? haddr) pos hphase
  have hdrop : ∀ m ∈ ms, ∀ a, m.act = .address (.drop a) →
      m.dst.addressValues + 1 = m.src.addressValues := by
    intro m hm a hact
    have hmove := Moves.of_step (h.step_eq hm)
    rw [hact] at hmove
    cases hmove with
    | address hmove => exact addressValues_drop hmove
  constructor
  · intro hlast m hm a hact
    have hne : m.dst.addressValues ≠ 0 := fun hzero =>
      hnever m hm a ((hlast.shutdown m hm a hact).mpr hzero)
    have := hdrop m hm a hact
    omega
  · intro hsrc
    refine ⟨hcount, ?_⟩
    intro m hm a hact
    have hsrc := hsrc m hm a hact
    have hdst := hdrop m hm a hact
    exact iff_of_false (hnever m hm a) (by omega)

end Runs

section Examples

def echoStart (cfg : Config) : State echoActor := Builder.start cfg fun _ => ()

theorem act_mem_of_map {ms : List (Move (State echoActor) (Act echoActor))}
    {as : List (Act echoActor)} (h : ms.map Move.act = as)
    {m : Move (State echoActor) (Act echoActor)}
    (hm : m ∈ ms) : m.act ∈ as :=
  h ▸ List.mem_map_of_mem hm

/-- Dropping a clone while the first address lives. -/
theorem shutdown_by_last_drop_clone :
    ∃ ms t, Path step (echoStart .default) ms t ∧
      ms.map Move.act = [.address (.clone 0), .address (.drop 0)] ∧
      ShutdownByLastDrop (echoStart .default) ms := by
  obtain ⟨ms, u, v, hpath, hacts, hp⟩ := exists_path_of_eval step (echoStart .default)
    [.address (.clone 0)] (.address (.drop 0))
    (fun u _ => decide (1 < u.addressValues)) (by decide)
  refine ⟨_, v, hpath, by simp [hacts], ?_⟩
  refine (shutdown_by_last_drop_iff .start hpath ?_).mpr ?_
  · rintro m hm ⟨w, up, hact, _⟩
    have hmem : m.act ∈ [.address (.clone 0), .address (.drop 0)] :=
      act_mem_of_map (by simp [hacts]) hm
    rw [hact] at hmem
    simp at hmem
  · intro m hm a hact
    rcases List.mem_append.mp hm with hm | hm
    · have hmem := act_mem_of_map hacts hm
      rw [hact] at hmem
      simp at hmem
    · obtain rfl := List.mem_singleton.mp hm
      exact of_decide_eq_true hp

/-- The one address of a started set is dropped, and no shutdown runs. -/
theorem last_drop_runs_no_shutdown :
    ¬∀ (ms : List (Move (State echoActor) (Act echoActor))) (t : State echoActor),
      Path step (echoStart .default) ms t → (∀ m ∈ ms, ¬UpgradePanics m) →
      ShutdownByLastDrop (echoStart .default) ms := by
  intro hall
  obtain ⟨ms, u, v, hpath, hacts, hp⟩ := exists_path_of_eval step (echoStart .default)
    [] (.address (.drop 0))
    (fun _ v => v.addressValues == 0 && v.addresses.all fun addr => addr.phase == .fields)
    (by decide)
  obtain rfl := List.map_eq_nil_iff.mp hacts
  rw [Bool.and_eq_true, beq_iff_eq, List.all_eq_true] at hp
  have hrun := hall _ v hpath (by
    intro m hm
    obtain rfl := List.mem_singleton.mp hm
    rintro ⟨w, up, hact, _⟩
    cases hact)
  obtain ⟨addr, pos, haddr, hphase⟩ :=
    (hrun.shutdown _ (List.mem_singleton_self _) 0 rfl).mpr hp.1
  have hfields := hp.2 addr (List.mem_of_getElem? haddr)
  simp [hphase] at hfields

end Examples

/-- Every handle that names a group names the group of the first address. -/
structure GroupInv (group : Option (List Nat)) (s : State A) : Prop where
  addresses : ∀ addr ∈ s.addresses, addr.txSubs = group
  weaks : ∀ weak ∈ s.weaks, weak.txSubs = group
  upgrades : ∀ up ∈ s.upgrades, up.weak.txSubs = group

theorem AddressMove.groupInv {s t : State A} {act : AddressAct} {group : Option (List Nat)}
    (h : AddressMove s act t) (hs : GroupInv group s) : GroupInv group t := by
  obtain ⟨haddrs, hweaks, hups⟩ := hs
  have haddrSet : ∀ {a : Nat} {addr : Address} {phase : AddressPhase}, s.addresses[a]? = some addr →
      ∀ x ∈ s.addresses.set a { addr with phase := phase }, x.txSubs = group := by
    intro a addr phase ha x hx
    rcases List.mem_or_eq_of_mem_set hx with hx | rfl
    · exact haddrs x hx
    · exact haddrs addr (List.mem_of_getElem? ha)
  have hupSet : ∀ {u : Nat} {up : Upgrade} {phase : UpgradePhase}, s.upgrades[u]? = some up →
      ∀ x ∈ s.upgrades.set u { up with phase := phase }, x.weak.txSubs = group := by
    intro u up phase hu x hx
    rcases List.mem_or_eq_of_mem_set hx with hx | rfl
    · exact hups x hx
    · exact hups up (List.mem_of_getElem? hu)
  cases h with
  | clone ha =>
    refine ⟨fun x hx => ?_, hweaks, hups⟩
    rcases List.mem_append.mp hx with hx | hx
    · exact haddrs x hx
    · obtain rfl := List.mem_singleton.mp hx
      exact haddrs x (List.mem_of_getElem? ha)
  | drop ha | marker ha | lock ha | unlock ha | release ha => exact ⟨haddrSet ha, hweaks, hups⟩
  | cancel ha =>
    rw [cancelHandler_frame]
    exact ⟨haddrSet ha, hweaks, hups⟩
  | downgrade ha =>
    refine ⟨haddrs, fun x hx => ?_, hups⟩
    rcases List.mem_append.mp hx with hx | hx
    · exact hweaks x hx
    · obtain rfl := List.mem_singleton.mp hx
      exact haddrs _ (List.mem_of_getElem? ha)
  | upgradeSender hw =>
    refine ⟨haddrs, hweaks, fun x hx => ?_⟩
    rcases List.mem_append.mp hx with hx | hx
    · exact hups x hx
    · obtain rfl := List.mem_singleton.mp hx
      exact hweaks _ (List.mem_of_getElem? hw)
  | upgradeCount hu | upgradePanic hu => exact ⟨haddrs, hweaks, hupSet hu⟩
  | upgradeReturn hu =>
    refine ⟨fun x hx => ?_, hweaks, hupSet hu⟩
    rcases List.mem_append.mp hx with hx | hx
    · exact haddrs x hx
    · obtain rfl := List.mem_singleton.mp hx
      exact hups _ (List.mem_of_getElem? hu)

theorem GroupInv.step {s t : State A} {act : Act A} {group : Option (List Nat)}
    (h : step s act = some t) (hs : GroupInv group s) : GroupInv group t := by
  rcases (Moves.of_step h).address_or_same with ⟨_, _, h⟩ | ⟨_, haddr, hup, hweak, _⟩
  · exact h.groupInv hs
  · obtain ⟨haddrs, hweaks, hups⟩ := hs
    exact ⟨by rwa [haddr], by rwa [hweak], by rwa [hup]⟩

section Upgrades
variable {cfg : Config} {build : Nat → A.State} {s t : State A} {ms : List (Move (State A) (Act A))}

theorem Started.exists_groupInv (h : Started cfg build s) :
    ∃ group, (group.isSome = true ↔ cfg.allowBroadcast = true) ∧ GroupInv group s := by
  obtain ⟨w, rfl, _⟩ := h.exists_wiring
  refine ⟨(Address.new cfg w.broadcastSenders).txSubs, ?_, ?_⟩
  · simp only [Address.new]
    split <;> simp [*]
  · constructor <;> simp [Wiring.finish]

/-- Every upgrade past the channel's sender returns a live address, which can
broadcast if the set was built for it. -/
def UpgradesUsable (cfg : Config) (ms : List (Move (State A) (Act A))) : Prop :=
  ∀ m ∈ ms, ∀ u, m.act = .address (.upgradeGroup u) →
    ∃ addr, m.dst.addresses = m.src.addresses ++ [addr] ∧ addr.phase = .live ∧
      (addr.txSubs.isSome = true ↔ cfg.allowBroadcast = true)

/-- The group is alive exactly when it is not needed or some address, even one
in the middle of its drop, has not given up its fields. -/
theorem group_alive_iff {s : State A} {group : Option (List Nat)} (hs : GroupInv group s)
    {up : Upgrade} (hup : up ∈ s.upgrades) :
    (up.weak.txSubs.all fun g => s.groupAlive g) = true ↔
      group.isSome = false ∨ ∃ addr ∈ s.addresses, addr.holdsFields = true := by
  rw [hs.upgrades up hup]
  cases group with
  | none => simp
  | some g =>
    simp only [Option.all_some, Option.isSome_some, Bool.true_eq_false, false_or,
      State.groupAlive, List.any_eq_true, Bool.and_eq_true, beq_iff_eq]
    constructor
    · rintro ⟨addr, haddr, hfields, _⟩
      exact ⟨addr, haddr, hfields⟩
    · rintro ⟨addr, haddr, hfields⟩
      exact ⟨addr, haddr, hfields, hs.addresses addr haddr⟩

theorem upgrade_usable_iff (hstart : Started cfg build s) (h : Path step s ms t) :
    UpgradesUsable cfg ms ↔ ∀ m ∈ ms, ∀ u, m.act = .address (.upgradeGroup u) →
      cfg.allowBroadcast = false ∨ ∃ addr ∈ m.src.addresses, addr.holdsFields = true := by
  obtain ⟨group, hsome, hgroup₀⟩ := hstart.exists_groupInv
  have hgroup : group.isSome = false ↔ cfg.allowBroadcast = false := by
    simpa only [Bool.not_eq_true] using not_congr hsome
  refine forall₂_congr fun m hm => forall₂_congr fun u hact => ?_
  obtain ⟨ps, _, _, hps, hstep⟩ := h.exists_prefix hm
  have hinv : GroupInv group m.src := hps.invariant hgroup₀ fun _ _ _ hstep hu => hu.step hstep
  have hmove := Moves.of_step hstep
  rw [hact] at hmove
  rw [← hgroup]
  cases hmove with
  | address hmove =>
    generalize hv : m.dst = v at hmove
    cases hmove with
    | upgradeReturn hu hphase halive =>
      have hup := List.mem_of_getElem? hu
      refine iff_of_true ⟨_, rfl, rfl, ?_⟩ ((group_alive_iff hinv hup).mp halive)
      rw [← hsome, hinv.upgrades _ hup]
    | upgradePanic hu hphase hdead =>
      refine iff_of_false ?_ ?_
      · rintro ⟨addr, haddr, _⟩
        have hlen := congrArg List.length haddr
        simp at hlen
      · intro hcond
        rw [(group_alive_iff hinv (List.mem_of_getElem? hu)).mpr hcond] at hdead
        cases hdead

/-- A stream keeps the channel open after the last address is gone. -/
theorem upgrade_panics_after_last_address :
    ¬∀ (ms : List (Move (State echoActor) (Act echoActor))) (t : State echoActor),
      Path step (echoStart { Config.default with allowBroadcast := true }) ms t →
      UpgradesUsable { Config.default with allowBroadcast := true } ms := by
  intro hall
  obtain ⟨ms, u, v, hpath, _, hp⟩ := exists_path_of_eval step
    (echoStart { Config.default with allowBroadcast := true })
    [.request (.stream 0), .address (.downgrade 0), .address (.drop 0),
      .address (.release 0), .address (.upgradeSender 0), .address (.upgradeCount 0)]
    (.address (.upgradeGroup 0))
    (fun u v => u.addresses.length == v.addresses.length) (by decide)
  obtain ⟨addr, haddr, _⟩ :=
    hall _ v hpath _ (List.mem_concat_self) 0 rfl
  have hlen := congrArg List.length haddr
  rw [beq_iff_eq] at hp
  simp [hp] at hlen

theorem upgrade_usable_iff_live :
    ∃ ms t, Path step (echoStart { Config.default with allowBroadcast := true }) ms t ∧
      ms.length = 4 ∧ UpgradesUsable { Config.default with allowBroadcast := true } ms := by
  obtain ⟨ms, u, v, hpath, hacts, hp⟩ := exists_path_of_eval step
    (echoStart { Config.default with allowBroadcast := true })
    [.address (.downgrade 0), .address (.upgradeSender 0), .address (.upgradeCount 0)]
    (.address (.upgradeGroup 0))
    (fun u _ => u.addresses.any fun addr => addr.holdsFields) (by decide)
  have hlen : ms.length = 3 := by simpa using congrArg List.length hacts
  refine ⟨_, v, hpath, by simp [hlen], (upgrade_usable_iff .start hpath).mpr ?_⟩
  intro m hm w hact
  rcases List.mem_append.mp hm with hm | hm
  · have hmem := act_mem_of_map hacts hm
    rw [hact] at hmem
    simp at hmem
  · obtain rfl := List.mem_singleton.mp hm
    exact .inr (List.any_eq_true.mp hp)

end Upgrades

end ActixSend
