import ActixSend.Oneshot
import ActixSend.Redirect

/-! # Downgrading and upgrading an address

`WeakAddress::upgrade` rebuilds the bundle of handles that `downgrade` took
apart, all but the subscriber list.
-/

namespace ActixSend

open Transition
set_option autoImplicit false

variable {N : Network}

/-- What the holder of a `WeakAddress` has in hand on the way to an address. -/
inductive Stage
  | weak (k : Nat)
  | sender (u : Nat)
  | counted (u : Nat)
  | address (b : Nat)

/-- `downgrade` of address `a` of set `i` and `upgrade` of the result, with any
actions of others in between while the address is kept. -/
inductive RoundTrip (w : World N) (i a : Nat) : Stage → World N → Prop
  | downgrade {v : World N} (h : w.step (.set i (.address (.downgrade a))) = some v) :
      RoundTrip w i a (.weak (w.sets i).weaks.length) v
  | upgradeSender {k : Nat} {u v : World N} (hu : RoundTrip w i a (.weak k) u)
      (h : u.step (.set i (.address (.upgradeSender k))) = some v) :
      RoundTrip w i a (.sender (u.sets i).upgrades.length) v
  | upgradeCount {k : Nat} {u v : World N} (hu : RoundTrip w i a (.sender k) u)
      (h : u.step (.set i (.address (.upgradeCount k))) = some v) :
      RoundTrip w i a (.counted k) v
  | upgradeGroup {k : Nat} {u v : World N} (hu : RoundTrip w i a (.counted k) u)
      (h : u.step (.set i (.address (.upgradeGroup k))) = some v) :
      RoundTrip w i a (.address (u.sets i).addresses.length) v
  | other {stage : Stage} {u v : World N} {act : WorldAct N} (hu : RoundTrip w i a stage u)
      (hstage : ∀ b, stage ≠ .address b) (hkeep : act ≠ .set i (.address (.drop a)))
      (h : u.step act = some v) : RoundTrip w i a stage v

def WorldAct.Drops (i a b : Nat) (act : WorldAct N) : Prop :=
  act = .set i (.address (.drop a)) ∨ act = .set i (.address (.drop b))

/-- The addresses `a` and `b` of set `i` refer to the same things, and a run that
drops neither goes on in the same way when the calls of `a` are made through `b`. -/
structure Interchangeable (w : World N) (i a b : Nat) : Prop where
  same : ∃ addr, (w.sets i).addresses[a]? = some addr ∧ (w.sets i).addresses[b]? = some addr
  runs : ∀ acts, (∀ act ∈ acts, ¬act.Drops i a b) →
    run World.step w (acts.map (WorldAct.redirect i a b)) =
      (run World.step w acts).map
        (World.redirect (w.sets i).calls.length w.subCalls.length i a b)

section Handles
variable {A : Actor} {s t : State A}

theorem Moves.address_kept {act : Act A} (h : Moves s act t) {a : Nat} {addr : Address}
    (ha : s.addresses[a]? = some addr) (hlive : addr.isLive = true)
    (hact : act ≠ .address (.drop a)) : t.addresses[a]? = some addr := by
  have hphase := phase_of_isLive hlive
  have hset : ∀ {c : Nat} {old new : Address}, s.addresses[c]? = some old → old.phase ≠ .live →
      (s.addresses.set c new)[a]? = some addr := by
    intro c old new hc hold
    have hca : c ≠ a := by
      rintro rfl
      obtain rfl := Option.some.inj (ha.symm.trans hc)
      exact hold hphase
    rwa [List.getElem?_set_ne hca]
  rcases h.address_or_same with ⟨act', rfl, hmove⟩ | ⟨_, haddresses, _⟩
  · cases hmove with
    | clone | upgradeReturn => exact getElem?_append_of ha
    | @drop c _ hc =>
      have hca : c ≠ a := by
        rintro rfl
        exact hact rfl
      simp only [State.setAddress]
      rwa [List.getElem?_set_ne hca]
    | marker hc hpos | lock hc hpos | unlock hc hpos | release hc hpos =>
      exact hset hc (by simp [hpos])
    | cancel hc hpos =>
      rw [cancelHandler_frame]
      exact hset hc (by simp [hpos])
    | downgrade | upgradeSender | upgradeCount | upgradePanic => exact ha
  · rwa [haddresses]

theorem Moves.weak_kept {act : Act A} (h : Moves s act t) {k : Nat} {weak : WeakAddress}
    (hk : s.weaks[k]? = some weak) : t.weaks[k]? = some weak := by
  rcases h.address_or_same with ⟨act', rfl, hmove⟩ | ⟨_, _, _, hweaks, _⟩
  · cases hmove with
    | downgrade => exact getElem?_append_of hk
    | cancel =>
      rw [cancelHandler_frame]
      exact hk
    | _ => exact hk
  · rwa [hweaks]

theorem Moves.upgrade_kept {act : Act A} (h : Moves s act t) {u : Nat} {weak : WeakAddress}
    (hu : (s.upgrades[u]?).map Upgrade.weak = some weak) :
    (t.upgrades[u]?).map Upgrade.weak = some weak := by
  have hset : ∀ {k : Nat} {up : Upgrade} {phase : UpgradePhase}, s.upgrades[k]? = some up →
      ((s.upgrades.set k { up with phase := phase })[u]?).map Upgrade.weak = some weak := by
    intro k up phase hk
    by_cases hku : k = u
    · subst hku
      rw [hk] at hu
      rw [getElem?_set_self_of hk]
      exact hu
    · rwa [List.getElem?_set_ne hku]
  rcases h.address_or_same with ⟨act', rfl, hmove⟩ | ⟨_, _, hupgrades, _⟩
  · cases hmove with
    | upgradeSender =>
      obtain ⟨up, hup, hweak⟩ := Option.map_eq_some_iff.mp hu
      rw [getElem?_append_of hup, Option.map_some, hweak]
    | upgradeCount hk | upgradeReturn hk | upgradePanic hk => exact hset hk
    | cancel =>
      rw [cancelHandler_frame]
      exact hu
    | _ => exact hu
  · rwa [hupgrades]

end Handles

section Worlds
variable {w v : World N} {i a : Nat}

/-- What the calls of other sets leave alone. -/
structure SameHandles {A : Actor} (s t : State A) : Prop where
  addresses : t.addresses = s.addresses
  weaks : t.weaks = s.weaks
  upgrades : t.upgrades = s.upgrades
  calls : t.calls = s.calls

theorem sameHandles_refl {A : Actor} (s : State A) : SameHandles s s := ⟨rfl, rfl, rfl, rfl⟩

theorem setSet_self (s : State (N.actor i)) : (w.setSet i s).sets i = s :=
  Function.update_self _ _ _

theorem setSet_other {j : Nat} (hij : i ≠ j) (s : State (N.actor j)) :
    (w.setSet j s).sets i = w.sets i :=
  Function.update_of_ne hij _ _

theorem deliver_sameHandles (sub : Subscriber N) (ty : N.Ty) (msg : N.Val ty) (i : Nat) :
    SameHandles (w.sets i) ((w.deliver sub ty msg).1.sets i) := by
  simp only [World.deliver]
  split
  · split
    · by_cases hset : i = sub.set
      · subst hset
        rw [setSet_self]
        exact ⟨rfl, rfl, rfl, rfl⟩
      · rw [setSet_other hset]
        exact sameHandles_refl _
    · exact sameHandles_refl _
  · exact sameHandles_refl _

theorem deliver_subCalls (sub : Subscriber N) (ty : N.Ty) (msg : N.Val ty) :
    (w.deliver sub ty msg).1.subCalls = w.subCalls := by
  simp only [World.deliver]
  split
  · split <;> rfl
  · rfl

theorem World.step_cases {act : WorldAct N} (h : w.step act = some v) (i : Nat) :
    (∃ act', act = .set i act' ∧ ActixSend.step (w.sets i) act' = some (v.sets i)) ∨
      SameHandles (w.sets i) (v.sets i) := by
  cases WorldMove.of_step h with
  | @set j act s hs =>
    by_cases hij : i = j
    · subst hij
      exact .inl ⟨act, rfl, by rw [setSet_self, hs]⟩
    · rw [setSet_other hij]
      exact .inr (sameHandles_refl _)
  | entry => exact .inr (deliver_sameHandles _ _ _ i)
  | _ => exact .inr (sameHandles_refl _)

theorem World.address_kept {act : WorldAct N} {addr : Address} (h : w.step act = some v)
    (ha : (w.sets i).addresses[a]? = some addr) (hlive : addr.isLive = true)
    (hact : act ≠ .set i (.address (.drop a))) : (v.sets i).addresses[a]? = some addr := by
  rcases World.step_cases h i with ⟨act', rfl, hstep⟩ | hsame
  · exact (Moves.of_step hstep).address_kept ha hlive fun h => hact (by rw [h])
  · rwa [hsame.addresses]

theorem World.weak_kept {act : WorldAct N} {k : Nat} {weak : WeakAddress}
    (h : w.step act = some v) (hk : (w.sets i).weaks[k]? = some weak) :
    (v.sets i).weaks[k]? = some weak := by
  rcases World.step_cases h i with ⟨act', rfl, hstep⟩ | hsame
  · exact (Moves.of_step hstep).weak_kept hk
  · rwa [hsame.weaks]

theorem World.upgrade_kept {act : WorldAct N} {u : Nat} {weak : WeakAddress}
    (h : w.step act = some v) (hu : ((w.sets i).upgrades[u]?).map Upgrade.weak = some weak) :
    ((v.sets i).upgrades[u]?).map Upgrade.weak = some weak := by
  rcases World.step_cases h i with ⟨act', rfl, hstep⟩ | hsame
  · exact (Moves.of_step hstep).upgrade_kept hu
  · rwa [hsame.upgrades]

theorem World.calls_length {act : WorldAct N} (h : w.step act = some v) (i : Nat) :
    (w.sets i).calls.length ≤ (v.sets i).calls.length := by
  rcases World.step_cases h i with ⟨act', rfl, hstep⟩ | hsame
  · exact (Moves.of_step hstep).calls_length
  · rw [hsame.calls]

theorem World.subCalls_length {act : WorldAct N} (h : w.step act = some v) :
    w.subCalls.length ≤ v.subCalls.length := by
  cases WorldMove.of_step h with
  | set => exact Nat.le_refl _
  | subscribeWith | sendSubscribe =>
    simp only [World.newSubCall, List.length_append, List.length_singleton]
    omega
  | push | lock | collect | abandon =>
    simp only [World.setSubCall, World.pushSub, List.length_set]
    exact Nat.le_refl _
  | entry =>
    simp only [World.setSubCall, List.length_set, deliver_subCalls]
    exact Nat.le_refl _

def Stage.Holds {A : Actor} (addr : Address) (s : State A) : Stage → Prop
  | .weak k => s.weaks[k]? = some ⟨addr.txSubs⟩
  | .sender u => (s.upgrades[u]?).map Upgrade.weak = some ⟨addr.txSubs⟩
  | .counted u => (s.upgrades[u]?).map Upgrade.weak = some ⟨addr.txSubs⟩
  | .address b => s.addresses[b]? = some ⟨addr.txSubs, none, .live⟩

theorem AddressMove.of_world {act : AddressAct} (h : w.step (.set i (.address act)) = some v) :
    AddressMove (w.sets i) act (v.sets i) := by
  cases WorldMove.of_step h with
  | set hs =>
    rw [setSet_self]
    exact .of_step hs

theorem weak_of_downgrade {A : Actor} {s t : State A} {a : Nat} {addr : Address}
    (h : AddressMove s (.downgrade a) t) (ha : s.addresses[a]? = some addr) :
    t.weaks[s.weaks.length]? = some ⟨addr.txSubs⟩ := by
  cases h with
  | downgrade ha' =>
    obtain rfl := Option.some.inj (ha.symm.trans ha')
    exact List.getElem?_concat_length

theorem upgrade_of_sender {A : Actor} {s t : State A} {k : Nat} {weak : WeakAddress}
    (h : AddressMove s (.upgradeSender k) t) (hk : s.weaks[k]? = some weak) :
    (t.upgrades[s.upgrades.length]?).map Upgrade.weak = some weak := by
  cases h with
  | upgradeSender hk' =>
    obtain rfl := Option.some.inj (hk.symm.trans hk')
    rw [List.getElem?_concat_length, Option.map_some]

theorem groupAlive_of_address {A : Actor} {s : State A} {a : Nat} {addr : Address}
    (ha : s.addresses[a]? = some addr) (hlive : addr.isLive = true) :
    (addr.txSubs.all fun group => s.groupAlive group) = true := by
  cases hsubs : addr.txSubs with
  | none => rfl
  | some group =>
    rw [Option.all_some, State.groupAlive, List.any_eq_true]
    exact ⟨addr, List.mem_of_getElem? ha, by simp [holdsFields_of_isLive hlive, hsubs]⟩

theorem address_of_upgradeGroup {A : Actor} {s t : State A} {a k : Nat} {addr : Address}
    (h : AddressMove s (.upgradeGroup k) t) (ha : s.addresses[a]? = some addr)
    (hlive : addr.isLive = true)
    (hk : (s.upgrades[k]?).map Upgrade.weak = some ⟨addr.txSubs⟩) :
    t.addresses[s.addresses.length]? = some ⟨addr.txSubs, none, .live⟩ := by
  have hweak : ∀ {up : Upgrade}, s.upgrades[k]? = some up → up.weak = ⟨addr.txSubs⟩ := by
    intro up hup
    rw [hup] at hk
    exact Option.some.inj hk
  cases h with
  | upgradeReturn hup =>
    rw [hweak hup]
    exact List.getElem?_concat_length
  | upgradePanic hup _ hgroup =>
    rw [hweak hup] at hgroup
    rw [groupAlive_of_address ha hlive] at hgroup
    cases hgroup

theorem RoundTrip.holds {stage : Stage} {addr : Address} (h : RoundTrip w i a stage v)
    (ha : (w.sets i).addresses[a]? = some addr) (hlive : addr.isLive = true) :
    (v.sets i).addresses[a]? = some addr ∧ stage.Holds addr (v.sets i) := by
  induction h with
  | downgrade h =>
    exact ⟨World.address_kept h ha hlive nofun, weak_of_downgrade (.of_world h) ha⟩
  | upgradeSender hu h ih =>
    exact ⟨World.address_kept h ih.1 hlive nofun, upgrade_of_sender (.of_world h) ih.2⟩
  | upgradeCount hu h ih =>
    exact ⟨World.address_kept h ih.1 hlive nofun, World.upgrade_kept h ih.2⟩
  | upgradeGroup hu h ih =>
    exact ⟨World.address_kept h ih.1 hlive nofun,
      address_of_upgradeGroup (.of_world h) ih.1 hlive ih.2⟩
  | @other stage u v act hu hstage hkeep h ih =>
    refine ⟨World.address_kept h ih.1 hlive hkeep, ?_⟩
    cases stage with
    | weak k => exact World.weak_kept h ih.2
    | sender k | counted k => exact World.upgrade_kept h ih.2
    | address b => exact absurd rfl (hstage b)

theorem World.set_step {act : AddressAct} {s : State (N.actor i)}
    (hact : ∀ c, act ≠ .drop c) (h : (w.sets i).addressStep act = some s) :
    w.step (.set i (.address act)) = some (w.setSet i s) := by
  simp only [World.step, World.setStep]
  split
  · rename_i c heq
    exact absurd (Act.address.inj heq) (hact c)
  · rename_i act' _
    exact congrArg (Option.map (w.setSet i)) h

theorem exists_upgrade {A : Actor} {s : State A} {a k : Nat} {addr : Address}
    (ha : s.addresses[a]? = some addr) (hlive : addr.isLive = true)
    (hk : s.weaks[k]? = some ⟨addr.txSubs⟩) :
    ∃ t₁ t₂ t₃, s.addressStep (.upgradeSender k) = some t₁ ∧
      t₁.addressStep (.upgradeCount s.upgrades.length) = some t₂ ∧
      t₂.addressStep (.upgradeGroup s.upgrades.length) = some t₃ := by
  have hsender := sharedSender_of_address ha (holdsFields_of_isLive hlive)
  let t₁ : State A := { s with upgrades := s.upgrades ++ [⟨⟨addr.txSubs⟩, .sender⟩] }
  let t₂ : State A := { t₁ with
    strongCount := s.strongCount + 1
    upgrades := t₁.upgrades.set s.upgrades.length ⟨⟨addr.txSubs⟩, .counted⟩ }
  have h₁ : s.addressStep (.upgradeSender k) = some t₁ := by
    simp only [State.addressStep, State.upgradeSender, hk, hsender, if_true]
    rfl
  have hu₁ : t₁.upgrades[s.upgrades.length]? = some ⟨⟨addr.txSubs⟩, .sender⟩ :=
    List.getElem?_concat_length
  have h₂ : t₁.addressStep (.upgradeCount s.upgrades.length) = some t₂ := by
    simp only [State.addressStep, State.upgradeCount, hu₁]
    rfl
  have hu₂ : t₂.upgrades[s.upgrades.length]? = some ⟨⟨addr.txSubs⟩, .counted⟩ :=
    getElem?_set_self_of hu₁
  have halive : (addr.txSubs.all fun group => t₂.groupAlive group) = true :=
    groupAlive_of_address (s := t₂) ha hlive
  obtain ⟨t₃, h₃⟩ : ∃ t₃, t₂.addressStep (.upgradeGroup s.upgrades.length) = some t₃ := by
    simp only [State.addressStep, State.upgradeGroup, hu₂, halive, if_true]
    exact ⟨_, rfl⟩
  exact ⟨t₁, t₂, t₃, h₁, h₂, h₃⟩

/-- Nothing has to happen in between, and nothing can fail. -/
theorem exists_roundTrip {addr : Address} (ha : (w.sets i).addresses[a]? = some addr)
    (hlive : addr.isLive = true) : ∃ v b, RoundTrip w i a (.address b) v := by
  obtain ⟨s, hs⟩ : ∃ s, (w.sets i).addressStep (.downgrade a) = some s := by
    simp [State.addressStep, State.downgrade, ha, hlive]
  have h₁ := RoundTrip.downgrade (World.set_step (by simp) hs)
  obtain ⟨ha₁, hk⟩ := h₁.holds ha hlive
  obtain ⟨t₁, t₂, t₃, hsender, hcount, hgroup⟩ := exists_upgrade ha₁ hlive hk
  have h₂ := h₁.upgradeSender (World.set_step (by simp) hsender)
  have h₃ := h₂.upgradeCount (World.set_step (by simp) (by rwa [setSet_self]))
  have h₄ := h₃.upgradeGroup (World.set_step (by simp) (by rwa [setSet_self]))
  exact ⟨_, _, h₄⟩

theorem redirect_start (b : Nat) :
    w.redirect (w.sets i).calls.length w.subCalls.length i a b = w := by
  have hcalls : (w.sets i).calls.mapIdx (Call.redirect (w.sets i).calls.length a b) =
      (w.sets i).calls := by
    apply List.ext_getElem?
    intro k
    rw [List.getElem?_mapIdx]
    cases hk : (w.sets i).calls[k]? with
    | none => rfl
    | some call =>
      have hlt := (List.getElem?_eq_some_iff.mp hk).1
      rw [Option.map_some, Call.redirect, if_neg fun h => by omega]
  have hset : (w.sets i).redirect (w.sets i).calls.length a b = w.sets i := by
    rw [State.redirect, hcalls]
  have hsubCalls : w.subCalls.mapIdx (SubCall.redirect w.subCalls.length i a b) = w.subCalls := by
    apply List.ext_getElem?
    intro k
    rw [List.getElem?_mapIdx]
    cases hk : w.subCalls[k]? with
    | none => rfl
    | some call =>
      have hlt := (List.getElem?_eq_some_iff.mp hk).1
      rw [Option.map_some, SubCall.redirect, if_neg fun h => by omega]
  rw [World.redirect, hset, hsubCalls, Function.update_eq_self]

theorem interchangeable_of_same {b : Nat} {addr : Address}
    (ha : (w.sets i).addresses[a]? = some addr) (hb : (w.sets i).addresses[b]? = some addr)
    (hlive : addr.isLive = true) : Interchangeable w i a b := by
  refine ⟨⟨addr, ha, hb⟩, fun acts hacts => ?_⟩
  let I : World N → Prop := fun u => (u.sets i).addresses[a]? = some addr ∧
    (u.sets i).addresses[b]? = some addr ∧ (w.sets i).calls.length ≤ (u.sets i).calls.length ∧
    w.subCalls.length ≤ u.subCalls.length
  have hstep : ∀ (u : World N) (act : WorldAct N), I u → ¬act.Drops i a b →
      (u.redirect (w.sets i).calls.length w.subCalls.length i a b).step (act.redirect i a b) =
        (u.step act).map (World.redirect (w.sets i).calls.length w.subCalls.length i a b) := by
    rintro u act ⟨ha, hb, hn, hm⟩ hact
    rw [WorldAct.Drops, not_or] at hact
    exact redirect_worldStep ha hb hn hm hact.1 hact.2
  have hI : ∀ (u : World N) (act : WorldAct N) (v : World N), I u → ¬act.Drops i a b →
      u.step act = some v → I v := by
    rintro u act v ⟨ha, hb, hn, hm⟩ hact h
    rw [WorldAct.Drops, not_or] at hact
    exact ⟨World.address_kept h ha hlive hact.1, World.address_kept h hb hlive hact.2,
      hn.trans (World.calls_length h i), hm.trans (World.subCalls_length h)⟩
  have hw : I w := ⟨ha, hb, Nat.le_refl _, Nat.le_refl _⟩
  have hrun := run_map hstep hI hw hacts
  rwa [redirect_start] at hrun

/-- The round trip can always be made, and what comes back is interchangeable
with the address it started from just when that one has no subscriber list. -/
theorem round_trip_interchangeable_iff {addr : Address}
    (ha : (w.sets i).addresses[a]? = some addr) (hlive : addr.isLive = true) :
    (∃ v b, RoundTrip w i a (.address b) v) ∧
      ∀ v b, RoundTrip w i a (.address b) v →
        (Interchangeable v i a b ↔ addr.subs = none) := by
  refine ⟨exists_roundTrip ha hlive, fun v b h => ?_⟩
  obtain ⟨ha', hb'⟩ := h.holds ha hlive
  constructor
  · rintro ⟨⟨addr', hsame, hsame'⟩, _⟩
    obtain rfl := Option.some.inj (ha'.symm.trans hsame)
    exact congrArg Address.subs (Option.some.inj (hsame'.symm.trans hb'))
  · intro hsubs
    have hphase := phase_of_isLive hlive
    obtain ⟨txSubs, subs, phase⟩ := addr
    obtain rfl : subs = none := hsubs
    obtain rfl : phase = .live := hphase
    exact interchangeable_of_same ha' hb' hlive

theorem sendSubscribe_of_live {addr : Address} (ha : (w.sets i).addresses[a]? = some addr)
    (hlive : addr.isLive = true) (ty : N.Ty) (msg : N.Val ty) :
    w.step (.sendSubscribe i a ty msg) = some (w.newSubCall ⟨i, a, none, addr.subs,
      if addr.subs.isSome then .lock ty msg else .sent [.error .subscribe]⟩) := by
  simp [World.step, World.sendSubscribe, ha, hlive]

end Worlds

theorem round_trip_interchangeable_default :
    (∃ (v : World echoNetwork) (b : Nat),
      RoundTrip (echoWorld .default) 0 0 (.address b) v) ∧
    ∀ v b, RoundTrip (echoWorld .default) 0 0 (.address b) v →
      (Interchangeable v 0 0 b ↔ (Address.new .default []).subs = none) :=
  round_trip_interchangeable_iff (by rfl) (by decide)

/-- With `allow_subscribe` the upgraded address has no subscribers to send to. -/
theorem round_trip_loses_subscribers :
    ¬∀ (v : World echoNetwork) (b : Nat),
      RoundTrip (echoWorld { Config.default with allowSubscribe := true }) 0 0 (.address b) v →
        Interchangeable v 0 0 b := by
  intro h
  have ha : ((echoWorld { Config.default with allowSubscribe := true }).sets 0).addresses[0]? =
      some ⟨none, some 0, .live⟩ := rfl
  obtain ⟨v, b, hv⟩ := exists_roundTrip ha rfl
  obtain ⟨ha', hb'⟩ := hv.holds ha rfl
  have hrun := (h v b hv).runs [.sendSubscribe 0 0 () (true, 5)] (by simp [WorldAct.Drops])
  have hdirect := sendSubscribe_of_live ha' rfl () (true, 5)
  have hthrough := sendSubscribe_of_live hb' rfl () (true, 5)
  change (v.step (.sendSubscribe 0 b () (true, 5))).bind some =
    ((v.step (.sendSubscribe 0 0 () (true, 5))).bind some).map _ at hrun
  rw [hdirect, hthrough] at hrun
  have hcalls := congrArg (fun u => (u.subCalls[v.subCalls.length]?).map SubCall.phase)
    (Option.some.inj hrun)
  simp [World.newSubCall] at hcalls

end ActixSend
