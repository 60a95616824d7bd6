import ActixSend.Holder

/-! # What a channel holds

The shared channel is unbounded, and a broadcast channel is made for as many
messages as there are contexts. A send waits, and can time out, only where a
broadcast channel is full.
-/

namespace ActixSend

open Function Transition
set_option autoImplicit false

variable {A : Actor}

/-- The bounded channels are those of the group, each for `num` messages. -/
structure Wiring.Bounded (w : Wiring A) (num : Nat) : Prop where
  shared : w.cap 0 = none
  cap : ∀ chan cap, w.cap chan = some cap → cap = num
  group : ∀ chan ∈ w.broadcastSenders, w.cap chan = some num

theorem wired_cap (cfg : Config) (build : Nat → A.State) (pos : Position A)
    (hallow : cfg.allowBroadcast = true) (n chan : Nat) :
    (wired cfg build pos n).cap chan = if 1 ≤ chan ∧ chan ≤ n then some cfg.num else none := by
  induction n with
  | zero =>
    rw [if_neg (by omega)]
    rfl
  | succ n ih =>
    have hchannels := (wired_channels cfg build pos hallow n).1
    rw [wired_succ]
    simp only [Wiring.addContext, Wiring.broadcastReceiver, hallow, if_true, Wiring.spawn,
      hchannels]
    by_cases hchan : chan = n + 1
    · rw [hchan, update_self, if_pos (by omega)]
    · rw [update_of_ne hchan, ih]
      have hiff : 1 ≤ chan ∧ chan ≤ n ↔ 1 ≤ chan ∧ chan ≤ n + 1 := by omega
      simp only [hiff]

theorem wired_unbounded (cfg : Config) (build : Nat → A.State) (pos : Position A)
    (hallow : cfg.allowBroadcast = false) (n : Nat) :
    (wired cfg build pos n).cap = (fun _ => none) ∧
      (wired cfg build pos n).broadcastSenders = [] := by
  induction n with
  | zero => exact ⟨rfl, rfl⟩
  | succ n ih =>
    rw [wired_succ]
    simpa [Wiring.addContext, Wiring.broadcastReceiver, hallow, Wiring.spawn] using ih

theorem wired_bounded (cfg : Config) (build : Nat → A.State) (pos : Position A) (n : Nat) :
    (wired cfg build pos n).Bounded cfg.num := by
  cases hallow : cfg.allowBroadcast with
  | false =>
    obtain ⟨hcap, hsenders⟩ := wired_unbounded cfg build pos hallow n
    refine ⟨by rw [hcap], ?_, ?_⟩
    · intro chan cap h
      rw [hcap] at h
      cases h
    · intro chan h
      rw [hsenders] at h
      cases h
  | true =>
    have hcap := wired_cap cfg build pos hallow n
    refine ⟨by rw [hcap, if_neg (by omega)], ?_, ?_⟩
    · intro chan cap h
      rw [hcap] at h
      split at h
      · exact (Option.some.inj h).symm
      · cases h
    · intro chan h
      rw [(wired_channels cfg build pos hallow n).2] at h
      obtain ⟨i, hi, rfl⟩ := List.mem_map.mp h
      have hlt := List.mem_range.mp hi
      rw [hcap, if_pos (by omega)]

theorem Started.exists_bounded {cfg : Config} {build : Nat → A.State} {s : State A}
    (h : Started cfg build s) : ∃ w : Wiring A, s = w.finish cfg ∧ w.Bounded cfg.num := by
  cases h with
  | start => exact ⟨_, start_eq cfg build, wired_bounded cfg build .onStart cfg.num⟩
  | startWithArbiters h =>
    unfold Builder.startWithArbiters at h
    split at h
    · split at h
      · cases h
        refine ⟨_, rfl, rfl, ?_, ?_⟩
        · intro chan cap hcap
          cases hcap
        · intro chan hchan
          cases hchan
      · cases h
    · simp only at h
      split at h
      · cases h
        exact ⟨_, rfl, wired_bounded cfg build .build cfg.num⟩
      · cases h

theorem Moves.cap_eq {s t : State A} {act : Act A} (h : Moves s act t) : t.cap = s.cap := by
  cases h with
  | address h => rw [h.frame]
  | request h => rw [h.frame]
  | poll h => rw [h.frame]
  | elapseDelayed | elapseInterval => rfl
  | context _ h => rw [h.frame]
  | panic _ h => rw [h.frame]

theorem sendShared_queue (s : State A) (msg : ContextMessage A) {chan : Nat} (hchan : chan ≠ 0) :
    (s.sendShared msg).queue chan = s.queue chan := by
  unfold State.sendShared
  split
  · exact update_of_ne hchan _ _
  · rfl

/-- A broadcast channel takes a message only from a request that found room. -/
inductive Fills (s : State A) (chan : Nat) (queue : List (Envelope A)) : Prop
  | shrinks (h : queue.length ≤ (s.queue chan).length)
  | send {c : Nat} {call : Call A} {env : Envelope A} (hc : s.calls[c]? = some call)
      (hphase : call.phase = .sending) (hchan : call.req.channel = chan)
      (hfull : s.full chan = false) (h : queue = s.queue chan ++ [env])

theorem RequestMove.fills {s t : State A} {act : RequestAct A} (h : RequestMove s act t)
    {chan : Nat} (hchan : chan ≠ 0) : Fills s chan (t.queue chan) := by
  cases h with
  | @send c call hc hphase hopen hfull =>
    by_cases heq : chan = call.req.channel
    · subst heq
      exact .send hc hphase rfl hfull (update_self _ _ _)
    · refine .shrinks (Nat.le_of_eq ?_)
      exact congrArg List.length (update_of_ne heq _ _)
  | item => exact .shrinks (Nat.le_of_eq (congrArg List.length (update_of_ne hchan _ _)))
  | @answer _ call | @canceled _ call =>
    obtain ⟨address, req, phase⟩ := call
    cases req <;> exact .shrinks (Nat.le_refl _)
  | cancel =>
    rw [cancelHandler_frame]
    exact .shrinks (Nat.le_refl _)
  | _ => exact .shrinks (Nat.le_refl _)

theorem TaskMove.queue_eq {s u : State A} {k : Nat} (h : TaskMove s k u) {chan : Nat}
    (hchan : chan ≠ 0) : u.queue chan = s.queue chan := by
  cases h with
  | send | delayedSend | intervalSend => exact sendShared_queue _ _ hchan
  | _ => rfl

theorem LedgerMove.queue_le {s t : State A} {i : Nat} {c : Context A} (h : LedgerMove s i c t)
    (chan : Nat) : (t.queue chan).length ≤ (s.queue chan).length := by
  cases h with
  | same h | finish _ _ h | lose _ h =>
    rw [show t.queue = s.queue from congrArg Ledger.queue h]
  | @take chan' env rest _ _ hqueue h =>
    rw [show t.queue = _ from congrArg Ledger.queue h]
    by_cases heq : chan = chan'
    · subst heq
      simp [Ledger.take, hqueue]
    · simp [Ledger.take, heq]

theorem Moves.fills {s t : State A} {act : Act A} (h : Moves s act t) {chan : Nat}
    (hchan : chan ≠ 0) : Fills s chan (t.queue chan) := by
  cases h with
  | address h =>
    rw [h.frame]
    exact .shrinks (Nat.le_refl _)
  | request h => exact h.fills hchan
  | poll h => exact .shrinks (Nat.le_of_eq (congrArg List.length (h.queue_eq hchan)))
  | elapseDelayed | elapseInterval => exact .shrinks (Nat.le_refl _)
  | context hc h => exact .shrinks ((h.ledgerMove hc).queue_le chan)
  | panic _ h =>
    rw [h.frame]
    exact .shrinks (Nat.le_refl _)

structure CapacityInv (num : Nat) (group : Option (List Nat)) (s : State A) : Prop where
  holder : HolderInv s
  groups : GroupInv group s
  shared : s.cap 0 = none
  cap : ∀ chan cap, s.cap chan = some cap → cap = num
  group : ∀ g, group = some g → ∀ chan ∈ g, s.cap chan = some num
  bounded : ∀ chan, chan ≠ 0 → (s.queue chan).length ≤ num

section Capacity
variable {num : Nat} {group : Option (List Nat)} {s t : State A}

theorem not_full_shared (h : s.cap 0 = none) : s.full 0 = false := by
  rw [State.full, h]
  rfl

theorem CapacityInv.cap_of_sending (hs : CapacityInv num group s) {c : Nat} {call : Call A}
    (hc : s.calls[c]? = some call) (hphase : call.phase = .sending)
    (hchan : call.req.channel ≠ 0) : s.cap call.req.channel = some num := by
  obtain ⟨a, addr, _, ha, _, hzero | hgroup⟩ :=
    hs.holder.borrows_of_sending (List.mem_of_getElem? hc) hphase
  · exact absurd hzero hchan
  · rw [Address.inGroup, Bool.and_eq_true, Option.any_eq_true] at hgroup
    obtain ⟨_, g, hg, hmem⟩ := hgroup
    have heq := hs.groups.addresses addr (List.mem_of_getElem? ha)
    exact hs.group g (heq.symm.trans hg) _ (List.contains_iff_mem.mp hmem)

theorem CapacityInv.step {act : Act A} (h : step s act = some t)
    (hs : CapacityInv num group s) : CapacityInv num group t := by
  have hmove := Moves.of_step h
  refine ⟨hs.holder.step h, hs.groups.step h, ?_, ?_, ?_, ?_⟩
  · rw [hmove.cap_eq, hs.shared]
  · rw [hmove.cap_eq]
    exact hs.cap
  · rw [hmove.cap_eq]
    exact hs.group
  · intro chan hchan
    have hle := hs.bounded chan hchan
    rcases hmove.fills hchan with hshrinks | ⟨hc, hphase, rfl, hfull, hqueue⟩
    · exact Nat.le_trans hshrinks hle
    · have hcap := hs.cap_of_sending hc hphase hchan
      rw [State.full, hcap, Option.any_some, decide_eq_false_iff_not] at hfull
      rw [hqueue, List.length_append, List.length_singleton]
      omega

/-- The request waits for room in a broadcast channel that holds all it can. -/
def WaitsForRoom (num : Nat) (s : State A) (c : Nat) : Prop :=
  ∃ call batch chan msg, s.calls[c]? = some call ∧ call.req = .entry batch chan msg ∧
    s.receiver chan = true ∧ (s.queue chan).length = num

theorem CapacityInv.waits {c : Nat} (h : ActixSend.step s (.request (.timeout c)) = some t)
    (hs : CapacityInv num group s) : WaitsForRoom num s c := by
  cases Moves.of_step h with
  | request hmove =>
    cases hmove with
    | @timeout _ call hc hphase hopen hfull =>
      have hchan : call.req.channel ≠ 0 := by
        intro hzero
        rw [hzero, not_full_shared hs.shared] at hfull
        cases hfull
      have hcap := hs.cap_of_sending hc hphase hchan
      rw [State.full, hcap, Option.any_some, decide_eq_true_iff] at hfull
      have hle := hs.bounded _ hchan
      obtain ⟨address, req, phase⟩ := call
      cases req with
      | entry batch chan msg =>
        exact ⟨_, batch, chan, msg, hc, rfl, hopen, Nat.le_antisymm hle hfull⟩
      | _ => exact absurd rfl hchan

theorem send_enabled {c : Nat} {call : Call A} (hc : s.calls[c]? = some call)
    (hphase : call.phase = .sending)
    (hroom : s.receiver call.req.channel = true → s.full call.req.channel = false) :
    ∃ u, ActixSend.step s (.request (.send c)) = some u := by
  simp only [ActixSend.step, State.requestStep, State.sendCall, hc, hphase]
  cases hopen : s.receiver call.req.channel with
  | false => exact ⟨_, rfl⟩
  | true =>
    simp only [hroom hopen]
    exact ⟨_, rfl⟩

end Capacity

section Runs
variable {cfg : Config} {build : Nat → A.State} {s t : State A} {ms : List (Move (State A) (Act A))}

theorem Started.exists_capacityInv (h : Started cfg build s) :
    ∃ group, CapacityInv cfg.num group s := by
  have hholder := h.holderInv
  obtain ⟨w, rfl, hshared, hcap, hgroup⟩ := h.exists_bounded
  refine ⟨(Address.new cfg w.broadcastSenders).txSubs, hholder, ?_, hshared, hcap, ?_, ?_⟩
  · constructor <;> simp [Wiring.finish]
  · intro g hg chan hchan
    rw [Address.new] at hg
    split at hg
    · rw [← Option.some.inj hg] at hchan
      exact hgroup chan hchan
    · cases hg
  · exact fun _ _ => Nat.zero_le _

theorem exists_capacityInv_of_path (hstart : Started cfg build s) (h : Path step s ms t) :
    ∃ group, CapacityInv cfg.num group t := by
  obtain ⟨group, hinv⟩ := hstart.exists_capacityInv
  exact ⟨group, h.invariant hinv fun _ _ _ hstep hu => hu.step hstep⟩

/-- No broadcast channel holds more than one message for each context, a
request times out only where one is full, and on the shared channel no request
ever waits for room. -/
theorem queues_bounded (hstart : Started cfg build s) (h : Path step s ms t) :
    (∀ chan, chan ≠ 0 → (t.queue chan).length ≤ cfg.num) ∧
      (∀ m ∈ ms, ∀ c, m.act = .request (.timeout c) → WaitsForRoom cfg.num m.src c) ∧
      ∀ c call, t.calls[c]? = some call → call.phase = .sending → call.req.channel = 0 →
        ∃ u, step t (.request (.send c)) = some u := by
  obtain ⟨group, hinv⟩ := exists_capacityInv_of_path hstart h
  refine ⟨hinv.bounded, ?_, ?_⟩
  · rintro ⟨src, act, dst⟩ hm c rfl
    obtain ⟨ps, _, _, hps, hstep⟩ := h.exists_prefix hm
    obtain ⟨_, hsrc⟩ := exists_capacityInv_of_path hstart hps
    exact hsrc.waits hstep
  · intro c call hc hphase hchan
    apply send_enabled hc hphase
    rw [hchan]
    exact fun _ => not_full_shared hinv.shared

/-- The second of two broadcasts to one context that does not start. -/
theorem queues_bounded_timeout :
    let cfg := { Config.default with allowBroadcast := true }
    ∃ ms t, Path step (echoStart cfg) ms t ∧ (t.queue 1).length = 1 ∧
      (∃ m ∈ ms, m.act = .request (.timeout 1)) ∧
      (∀ chan, chan ≠ 0 → (t.queue chan).length ≤ cfg.num) ∧
      (∀ m ∈ ms, ∀ c, m.act = .request (.timeout c) → WaitsForRoom cfg.num m.src c) ∧
      ∀ c call, t.calls[c]? = some call → call.phase = .sending → call.req.channel = 0 →
        ∃ u, step t (.request (.send c)) = some u := by
  obtain ⟨ms, t, hpath, hacts, _, hq⟩ := exists_path_of_checkedRun step
    (echoStart { Config.default with allowBroadcast := true })
    [.request (.broadcast 0 (true, 1)), .request (.broadcast 0 (true, 2)), .request (.send 0),
      .request (.timeout 1)]
    (fun _ _ _ => true) (fun t => (t.queue 1).length == 1) (by decide)
  have hmem : Act.request (.timeout 1) ∈ ms.map Move.act := by
    rw [hacts]
    simp
  obtain ⟨m, hm, hact⟩ := List.mem_map.mp hmem
  exact ⟨ms, t, hpath, beq_iff_eq.mp hq, ⟨m, hm, hact⟩, queues_bounded .start hpath⟩

end Runs

end ActixSend
