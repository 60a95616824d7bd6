import ActixSend.Channel

/-! # Who keeps a channel open

A channel is closed for its receivers once its last sender is gone, and for its
senders once its last receiver is. Whoever puts a message into a channel holds
a sender of it, and a sender only comes from another one; so a channel without
senders, and a channel without receivers, stays so.
-/

namespace ActixSend

open Function Transition
set_option autoImplicit false

variable {A : Actor}

theorem sendReply_calls (s : State A) (tx : Nat) (reply : Reply A) :
    (s.sendReply tx reply).calls = s.calls ∨ ∃ call, s.calls[tx]? = some call ∧
      call.phase = .waiting none ∧
      (s.sendReply tx reply).calls =
        s.calls.set tx { call with phase := .waiting (some reply) } := by
  unfold State.sendReply
  split
  · rename_i call hcall
    split
    · exact .inr ⟨call, hcall, ‹_›, rfl⟩
    · exact .inl rfl
  · exact .inl rfl

theorem ContextMove.calls_cases {s t : State A} {i : Nat} {c : Context A}
    (h : ContextMove s i c t) : t.calls = s.calls ∨ ∃ env tx call reply,
      c.pos.hand = some env ∧ (env.msg.tx = some tx ∨ ∃ handler, c.pos = .reply env tx handler) ∧
      s.calls[tx]? = some call ∧ call.phase = .waiting none ∧
      t.calls = s.calls.set tx { call with phase := .waiting (some reply) } ∧
      t.handled = s.handled ++ [⟨i, env, some reply⟩] := by
  cases h with
  | @close env tx hpos hmsg =>
    rcases sendReply_calls s tx (.contextState c.id c.generation) with
      heq | ⟨call, hcall, hphase, heq⟩
    · exact .inl heq
    · refine .inr ⟨env, tx, call, _, by rw [hpos]; rfl, .inl ?_, hcall, hphase, heq, ?_⟩
      · rw [hmsg]
        rfl
      · rw [sendReply_frame]
        rfl
  | @static env tx msg await hpos hmsg =>
    cases tx with
    | none => exact .inl rfl
    | some tx =>
      rcases sendReply_calls s tx (.result (A.handle c.actor msg await).2) with
        heq | ⟨call, hcall, hphase, heq⟩
      · exact .inl heq
      · refine .inr ⟨env, tx, call, _, by rw [hpos]; rfl, .inl ?_, hcall, hphase, heq, ?_⟩
        · rw [hmsg]
          rfl
        · rw [sendReplyTo_frame]
          rfl
  | @dynamic env tx fut await hpos hmsg =>
    cases tx with
    | none => exact .inl rfl
    | some tx =>
      rcases sendReply_calls s tx (.object (A.runFuture c.actor fut await).2.2) with
        heq | ⟨call, hcall, hphase, heq⟩
      · exact .inl heq
      · refine .inr ⟨env, tx, call, _, by rw [hpos]; rfl, .inl ?_, hcall, hphase, heq, ?_⟩
        · rw [hmsg]
          rfl
        · rw [sendReplyTo_frame]
          rfl
  | @reply env tx handler hpos =>
    rcases sendReply_calls s tx (.handler handler) with heq | ⟨call, hcall, hphase, heq⟩
    · exact .inl heq
    · refine .inr ⟨env, tx, call, _, by rw [hpos]; rfl, .inr ⟨_, hpos⟩, hcall, hphase, heq, ?_⟩
      rw [sendReply_frame]
      rfl
  | pushRefused | pushExtend =>
    simp only [State.afterPush]
    split <;> exact .inl rfl
  | intervalRun =>
    simp only [State.runInterval]
    split <;> exact .inl rfl
  | _ => exact .inl rfl

def Call.IsItem (call : Call A) : Prop :=
  (∃ st msg, call.req = .item st msg) ∧ call.phase ≠ .sending

/-- The request borrows a live address that can send where it goes. -/
def Borrows (s : State A) (call : Call A) : Prop :=
  ∃ (a : Nat) (addr : Address), call.address = some a ∧ s.addresses[a]? = some addr ∧
    addr.isLive = true ∧ (call.req.channel = 0 ∨ addr.inGroup call.req.channel = true)

def StreamKnows (streams : List StreamPhase) (c : Nat) (call : Call A) : Prop :=
  ∀ (st : Nat) (msg : A.Message), call.req = .item st msg →
    call.address = none ∧ (call.pending = true → streams[st]? = some (.last c))

/-- A pending request borrows a live address, and a stream that awaits a reply
remembers the request. -/
structure HolderInv (s : State A) : Prop where
  borrowed : ∀ call ∈ s.calls, call.pending = true → call.IsItem ∨ Borrows s call
  streams : ∀ (c : Nat) (call : Call A), s.calls[c]? = some call → StreamKnows s.streams c call

theorem holdsFields_of_isLive {addr : Address} (h : addr.isLive = true) :
    addr.holdsFields = true := by
  simp [Address.holdsFields, phase_of_isLive h]

theorem sharedSender_of_address {s : State A} {a : Nat} {addr : Address}
    (ha : s.addresses[a]? = some addr) (h : addr.holdsFields = true) : s.sharedSender = true := by
  have hany : s.addresses.any Address.holdsFields = true :=
    List.any_eq_true.mpr ⟨addr, List.mem_of_getElem? ha, h⟩
  simp [State.sharedSender, hany]

theorem sharedSender_of_upgrade {s : State A} {u : Nat} {up : Upgrade}
    (hu : s.upgrades[u]? = some up) (h : up.holdsSender = true) : s.sharedSender = true := by
  have hany : s.upgrades.any Upgrade.holdsSender = true :=
    List.any_eq_true.mpr ⟨up, List.mem_of_getElem? hu, h⟩
  simp [State.sharedSender, hany]

theorem sharedSender_of_stream {s : State A} {st : Nat} {phase : StreamPhase}
    (hst : s.streams[st]? = some phase) (h : phase ≠ .dropped) : s.sharedSender = true := by
  have hany : s.streams.any (fun st => st != .dropped) = true :=
    List.any_eq_true.mpr ⟨phase, List.mem_of_getElem? hst, by simpa using h⟩
  simp [State.sharedSender, hany]

theorem sharedSender_of_task {s : State A} {k : Nat} {task : Task A}
    (hk : s.tasks[k]? = some task) (h : task.holdsSender = true) : s.sharedSender = true := by
  have hany : s.tasks.any Task.holdsSender = true :=
    List.any_eq_true.mpr ⟨task, List.mem_of_getElem? hk, h⟩
  simp [State.sharedSender, hany]

theorem sharedSender_cases {s : State A} (h : s.sharedSender = true) :
    (∃ (a : Nat) (addr : Address), s.addresses[a]? = some addr ∧ addr.holdsFields = true) ∨
      (∃ (u : Nat) (up : Upgrade), s.upgrades[u]? = some up ∧ up.holdsSender = true) ∨
      (∃ (st : Nat) (phase : StreamPhase), s.streams[st]? = some phase ∧ phase ≠ .dropped) ∨
      ∃ (k : Nat) (task : Task A), s.tasks[k]? = some task ∧ task.holdsSender = true := by
  simp only [State.sharedSender, Bool.or_eq_true, List.any_eq_true] at h
  rcases h with ((⟨x, hx, hp⟩ | ⟨x, hx, hp⟩) | ⟨x, hx, hp⟩) | ⟨x, hx, hp⟩
  · obtain ⟨n, hn⟩ := List.mem_iff_getElem?.mp hx
    exact .inl ⟨n, x, hn, hp⟩
  · obtain ⟨n, hn⟩ := List.mem_iff_getElem?.mp hx
    exact .inr (.inl ⟨n, x, hn, hp⟩)
  · obtain ⟨n, hn⟩ := List.mem_iff_getElem?.mp hx
    exact .inr (.inr (.inl ⟨n, x, hn, by simpa using hp⟩))
  · obtain ⟨n, hn⟩ := List.mem_iff_getElem?.mp hx
    exact .inr (.inr (.inr ⟨n, x, hn, hp⟩))

theorem sharedSender_mono {s t : State A}
    (haddresses : ∀ (a : Nat) (addr : Address), t.addresses[a]? = some addr →
      addr.holdsFields = true → s.sharedSender = true)
    (hupgrades : ∀ (u : Nat) (up : Upgrade), t.upgrades[u]? = some up →
      up.holdsSender = true → s.sharedSender = true)
    (hstreams : ∀ (st : Nat) (phase : StreamPhase), t.streams[st]? = some phase →
      phase ≠ .dropped → s.sharedSender = true)
    (htasks : ∀ (k : Nat) (task : Task A), t.tasks[k]? = some task →
      task.holdsSender = true → s.sharedSender = true)
    (h : t.sharedSender = true) : s.sharedSender = true := by
  rcases sharedSender_cases h with ⟨a, addr, ha, hp⟩ | ⟨u, up, hu, hp⟩ | ⟨st, phase, hst, hp⟩ |
    ⟨k, task, hk, hp⟩
  · exact haddresses a addr ha hp
  · exact hupgrades u up hu hp
  · exact hstreams st phase hst hp
  · exact htasks k task hk hp

theorem AddressMove.sharedSender {s t : State A} {act : AddressAct} (h : AddressMove s act t) :
    s.sharedSender = true := by
  cases h with
  | clone ha hlive | drop ha hlive | downgrade ha hlive =>
    exact sharedSender_of_address ha (holdsFields_of_isLive hlive)
  | marker ha hpos | lock ha hpos | cancel ha hpos | unlock ha hpos | release ha hpos =>
    exact sharedSender_of_address ha (by simp [Address.holdsFields, hpos])
  | upgradeSender hw hsender => exact hsender
  | upgradeCount hu hphase | upgradeReturn hu hphase | upgradePanic hu hphase =>
    exact sharedSender_of_upgrade hu (by simp [Upgrade.holdsSender, hphase])

theorem HolderInv.borrows_of_sending {s : State A} {call : Call A} (hs : HolderInv s)
    (hcall : call ∈ s.calls) (hphase : call.phase = .sending) : Borrows s call := by
  rcases hs.borrowed call hcall (by simp [Call.pending, hphase]) with ⟨_, hsent⟩ | hborrow
  · exact absurd hphase hsent
  · exact hborrow

theorem sharedSender_of_sending {s : State A} {c : Nat} {call : Call A} (hs : HolderInv s)
    (hc : s.calls[c]? = some call) (hphase : call.phase = .sending) : s.sharedSender = true := by
  obtain ⟨a, addr, _, ha, hlive, _⟩ := hs.borrows_of_sending (List.mem_of_getElem? hc) hphase
  exact sharedSender_of_address ha (holdsFields_of_isLive hlive)

theorem sharedSender_of_same {s t : State A} (h : t.sharedSender = true)
    (haddresses : t.addresses = s.addresses) (hupgrades : t.upgrades = s.upgrades)
    (hstreams : t.streams = s.streams)
    (htasks : ∀ (k : Nat) (task : Task A), t.tasks[k]? = some task →
      task.holdsSender = true → s.sharedSender = true) : s.sharedSender = true := by
  refine sharedSender_mono ?_ ?_ ?_ htasks h
  · intro a addr ha hp
    rw [haddresses] at ha
    exact sharedSender_of_address ha hp
  · intro u up hu hp
    rw [hupgrades] at hu
    exact sharedSender_of_upgrade hu hp
  · intro st phase hst hp
    rw [hstreams] at hst
    exact sharedSender_of_stream hst hp

theorem resumeStream_sharedSender {s : State A} {c : Nat} {call : Call A} {out : Outcome A}
    (hs : HolderInv s) (hc : s.calls[c]? = some call) (hpending : call.pending = true)
    (h : ((s.setCall c { call with phase := .done out }).resumeStream
      call.req).sharedSender = true) :
    s.sharedSender = true := by
  cases hreq : call.req with
  | item st msg =>
    have hst := (hs.streams c call hc st msg hreq).2 hpending
    exact sharedSender_of_stream hst (by simp)
  | _ =>
    rw [hreq] at h
    exact sharedSender_of_same h rfl rfl rfl fun _ _ hk hp => sharedSender_of_task hk hp

theorem RequestMove.sharedSender_stable {s t : State A} {act : RequestAct A}
    (hmove : RequestMove s act t) (hs : HolderInv s) (h : t.sharedSender = true) :
    s.sharedSender = true := by
  cases hmove with
  | call ha hlive | doSend ha hlive | doRun ha hlive | stream ha hlive =>
    exact sharedSender_of_address ha (holdsFields_of_isLive hlive)
  | broadcast ha hgroup hlive => exact sharedSender_of_address ha (holdsFields_of_isLive hlive)
  | refuse hc hphase | send hc hphase | timeout hc hphase =>
    exact sharedSender_of_sending hs hc hphase
  | answer hc hphase | canceled hc hphase =>
    exact resumeStream_sharedSender hs hc (by simp [Call.pending, hphase]) h
  | abandon =>
    exact sharedSender_of_same h rfl rfl rfl fun _ _ hk hp => sharedSender_of_task hk hp
  | item hst | itemRefused hst | dropIdle hst | dropWaiting hst =>
    exact sharedSender_of_stream hst (by simp)
  | @cancel _ _ handler =>
    by_contra hnone
    have hsame : (s.cancelHandler handler).tasks = s.tasks := by
      simp only [State.cancelHandler]
      split
      · split
        · exact absurd ‹_› hnone
        · rfl
      · rfl
    rw [cancelHandler_frame, hsame] at h
    exact hnone (sharedSender_of_same h rfl rfl rfl fun _ _ hk hp => sharedSender_of_task hk hp)

theorem TaskMove.sharedSender_stable {s u : State A} {t : Nat} (hmove : TaskMove s t u)
    (h : u.sharedSender = true) : s.sharedSender = true := by
  cases hmove with
  | send ht | delayedSend ht | delayedDrop ht | delayedWait ht | intervalSend ht =>
    exact sharedSender_of_task ht rfl
  | intervalEnd ht =>
    refine sharedSender_of_same h rfl rfl rfl ?_
    intro k task hk hp
    rcases getElem?_set_cases hk with ⟨_, rfl⟩ | ⟨_, hk⟩
    · cases hp
    · exact sharedSender_of_task hk hp
  | intervalUpgrade ht hcell hflag hsender => exact hsender
  | intervalWait =>
    exact sharedSender_of_same h rfl rfl rfl fun _ _ hk hp => sharedSender_of_task hk hp

/-- A context spawns a task that owns a sender only by upgrading its weak one. -/
theorem ContextMove.tasks_cases {s t : State A} {i : Nat} {c : Context A}
    (h : ContextMove s i c t) : t.tasks = s.tasks ∨ s.sharedSender = true ∨
      ∃ cell key, t.tasks = s.tasks ++ [.interval cell key false false] := by
  cases h with
  | close | reply =>
    rw [sendReply_frame]
    exact .inl rfl
  | static | dynamic =>
    rw [sendReplyTo_frame]
    exact .inl rfl
  | delayed hpos hmsg hsender => exact .inr (.inl hsender)
  | insert => exact .inr (.inr ⟨_, _, rfl⟩)
  | pushRefused | pushExtend =>
    simp only [State.afterPush]
    split <;> exact .inl rfl
  | intervalRun =>
    simp only [State.runInterval]
    split <;> exact .inl rfl
  | _ => exact .inl rfl

theorem ContextMove.sharedSender_stable {s t : State A} {i : Nat} {c : Context A}
    (hmove : ContextMove s i c t) (h : t.sharedSender = true) : s.sharedSender = true := by
  have hframe := hmove.frame
  have haddresses : t.addresses = s.addresses := by rw [hframe]
  have hupgrades : t.upgrades = s.upgrades := by rw [hframe]
  have hstreams : t.streams = s.streams := by rw [hframe]
  rcases hmove.tasks_cases with htasks | hsender | ⟨cell, key, htasks⟩
  · refine sharedSender_of_same h haddresses hupgrades hstreams ?_
    intro k task hk hp
    rw [htasks] at hk
    exact sharedSender_of_task hk hp
  · exact hsender
  · refine sharedSender_of_same h haddresses hupgrades hstreams ?_
    intro k task hk hp
    rw [htasks] at hk
    rcases getElem?_append_cases hk with ⟨_, rfl⟩ | hk
    · cases hp
    · exact sharedSender_of_task hk hp

theorem Moves.sharedSender_stable {s t : State A} {act : Act A} (hmove : Moves s act t)
    (hs : HolderInv s) (h : t.sharedSender = true) : s.sharedSender = true := by
  cases hmove with
  | address hmove => exact hmove.sharedSender
  | request hmove => exact hmove.sharedSender_stable hs h
  | poll hmove => exact hmove.sharedSender_stable h
  | elapseDelayed hk => exact sharedSender_of_task hk rfl
  | elapseInterval hk =>
    refine sharedSender_of_same h rfl rfl rfl ?_
    intro k task hk' hp
    rcases getElem?_set_cases hk' with ⟨_, rfl⟩ | ⟨_, hk'⟩
    · exact sharedSender_of_task hk hp
    · exact sharedSender_of_task hk' hp
  | context hc hmove => exact hmove.sharedSender_stable h
  | panic hc hmove =>
    cases hmove
    exact sharedSender_of_same h rfl rfl rfl fun _ _ hk hp => sharedSender_of_task hk hp

theorem inGroup_of_phase {addr : Address} {phase : AddressPhase} {chan : Nat}
    (hfields : addr.holdsFields = true)
    (h : ({ addr with phase := phase } : Address).inGroup chan = true) :
    addr.inGroup chan = true := by
  simp only [Address.inGroup, Bool.and_eq_true] at h ⊢
  exact ⟨hfields, h.2⟩

theorem AddressMove.group_stable {s t : State A} {act : AddressAct} {chan : Nat}
    (hmove : AddressMove s act t) (h : (t.addresses.any fun a => a.inGroup chan) = true) :
    (s.addresses.any fun a => a.inGroup chan) = true := by
  cases hmove with
  | clone ha hlive =>
    rw [List.any_append, Bool.or_eq_true] at h
    rcases h with h | h
    · exact h
    · exact List.any_eq_true.mpr ⟨_, List.mem_of_getElem? ha, by simpa using h⟩
  | drop ha hlive =>
    exact any_of_set ha (inGroup_of_phase (holdsFields_of_isLive hlive)) h
  | marker ha hpos | lock ha hpos | unlock ha hpos | release ha hpos =>
    exact any_of_set ha (inGroup_of_phase (by simp [Address.holdsFields, hpos])) h
  | cancel ha hpos =>
    rw [cancelHandler_frame] at h
    exact any_of_set ha (inGroup_of_phase (by simp [Address.holdsFields, hpos])) h
  | @upgradeReturn _ up hu hphase halive =>
    rw [List.any_append, Bool.or_eq_true] at h
    rcases h with h | h
    · exact h
    · cases hgroup : up.weak.txSubs with
      | none => simp [Address.inGroup, hgroup] at h
      | some group =>
        rw [hgroup, Option.all_some, State.groupAlive, List.any_eq_true] at halive
        obtain ⟨addr, haddr, hsame⟩ := halive
        rw [Bool.and_eq_true, beq_iff_eq] at hsame
        have hchan : chan ∈ group := by
          simpa [Address.inGroup, Address.holdsFields, hgroup] using h
        exact List.any_eq_true.mpr ⟨addr, haddr, by simp [Address.inGroup, hsame, hchan]⟩
  | downgrade | upgradeSender | upgradeCount | upgradePanic => exact h

theorem Moves.sender_stable {s t : State A} {act : Act A} {chan : Nat} (hmove : Moves s act t)
    (hs : HolderInv s) (h : t.sender chan = true) : s.sender chan = true := by
  unfold State.sender at h ⊢
  split
  · rename_i hchan
    rw [if_pos hchan] at h
    exact hmove.sharedSender_stable hs h
  · rename_i hchan
    rw [if_neg hchan] at h
    rcases hmove.address_or_same with ⟨_, _, haddress⟩ | ⟨_, haddresses, _⟩
    · exact haddress.group_stable h
    · rwa [haddresses] at h

theorem sender_of_sends {s t : State A} {chan : Nat} {msg : ContextMessage A}
    (hs : HolderInv s) (h : Sends s t chan msg) : s.sender chan = true := by
  cases h with
  | task hk hmsg hholds => exact sharedSender_of_task hk hholds
  | @call c call _ hc hphase =>
    unfold State.sender
    split
    · exact sharedSender_of_sending hs hc hphase
    · rename_i hchan
      obtain ⟨a, addr, _, ha, _, hgroup⟩ :=
        hs.borrows_of_sending (List.mem_of_getElem? hc) hphase
      exact List.any_eq_true.mpr ⟨addr, List.mem_of_getElem? ha, hgroup.resolve_left hchan⟩
  | item hst => exact sharedSender_of_stream hst (by simp)

theorem gone_of_hand {pos : Position A} {env : Envelope A} (h : pos.hand = some env) :
    pos.gone = false := by
  cases pos <;> first | rfl | cases h

theorem Turn.receives_of {s : State A} {c c' : Context A} (h : Turn s c c') :
    c.pos.gone = false ∧ c'.rx = c.rx ∧ c'.selector = c.selector := by
  cases h with
  | hold hhand | finish hhand => exact ⟨gone_of_hand hhand, rfl, rfl⟩
  | lose hassert =>
    obtain ⟨_, hhand, _⟩ := hassert.exists_hand
    exact ⟨gone_of_hand hhand, rfl, rfl⟩
  | build hpos | onStart hpos | incActive hpos | take hpos | leave hpos | close hpos
  | restart hpos | stop hpos | onStop hpos => exact ⟨by rw [hpos]; rfl, rfl, rfl⟩

theorem Moves.contexts_cases {s t : State A} {act : Act A} (h : Moves s act t) :
    t.contexts = s.contexts ∨ ∃ i c c', s.contexts[i]? = some c ∧ c.pos.gone = false ∧
      t.contexts = s.contexts.set i c' ∧ c'.rx = c.rx ∧ c'.selector = c.selector ∧
      ((∃ chan await, act = .context i chan await ∧ ContextMove s i c t) ∨
        act = .panic i ∧ PanicMove s i c t) := by
  cases h with
  | address h =>
    rw [h.frame]
    exact .inl rfl
  | request h =>
    rw [h.frame]
    exact .inl rfl
  | poll h =>
    rw [h.frame]
    exact .inl rfl
  | elapseDelayed | elapseInterval => exact .inl rfl
  | context hc h =>
    obtain ⟨c', hset, hturn⟩ := h.turn
    obtain ⟨hgone, hrx, hselector⟩ := hturn.receives_of
    exact .inr ⟨_, _, c', hc, hgone, hset, hrx, hselector, .inl ⟨_, _, rfl, h⟩⟩
  | @panic i c _ hc h =>
    have hmove := h
    cases h with
    | panic huser =>
      refine .inr ⟨i, c, _, hc, ?_, rfl, rfl, rfl, .inr ⟨rfl, hmove⟩⟩
      cases hpos : c.pos <;> simp_all [State.inUserCode, Position.gone]

theorem Moves.receiver_stable {s t : State A} {act : Act A} {chan : Nat} (hmove : Moves s act t)
    (h : t.receiver chan = true) : s.receiver chan = true := by
  rcases hmove.contexts_cases with hsame | ⟨i, c, c', hc, hgone, hset, hrx, hselector, _⟩
  · rwa [State.receiver, hsame] at h
  · rw [State.receiver, hset] at h
    refine any_of_set hc ?_ h
    intro hreceives
    simp only [Context.receives, hrx, hselector, Bool.and_eq_true, hgone] at hreceives ⊢
    exact ⟨rfl, hreceives.2⟩

theorem channel_of_isRequest {req : Request A} (h : State.isRequest req = true) :
    req.channel = 0 := by
  cases req <;> first | rfl | cases h

theorem resumeStream_calls (s : State A) (req : Request A) :
    (s.resumeStream req).calls = s.calls := by
  cases req <;> rfl

theorem borrowed_set {s : State A} {c : Nat} {call : Call A} {phase : CallPhase A}
    (hs : ∀ x ∈ s.calls, x.pending = true → x.IsItem ∨ Borrows s x)
    (hc : s.calls[c]? = some call)
    (hphase : ({ call with phase := phase } : Call A).pending = true →
      call.pending = true ∧ phase ≠ .sending) :
    ∀ x ∈ s.calls.set c { call with phase := phase }, x.pending = true →
      x.IsItem ∨ Borrows s x := by
  intro x hx hpending
  rcases List.mem_or_eq_of_mem_set hx with hx | rfl
  · exact hs x hx hpending
  · obtain ⟨hbefore, hsent⟩ := hphase hpending
    exact (hs call (List.mem_of_getElem? hc) hbefore).imp (fun hitem => ⟨hitem.1, hsent⟩) id

theorem RequestMove.borrows {s t : State A} {act : RequestAct A} (h : RequestMove s act t)
    (hs : ∀ x ∈ s.calls, x.pending = true → x.IsItem ∨ Borrows s x) :
    ∀ x ∈ t.calls, x.pending = true → x.IsItem ∨ Borrows s x := by
  cases h with
  | call ha hlive hreq =>
    intro x hx hpending
    rcases List.mem_append.mp hx with hx | hx
    · exact hs x hx hpending
    · obtain rfl := List.mem_singleton.mp hx
      exact .inr ⟨_, _, rfl, ha, hlive, .inl (channel_of_isRequest hreq)⟩
  | broadcast ha hgroup hlive =>
    intro x hx hpending
    rcases List.mem_append.mp hx with hx | hx
    · exact hs x hx hpending
    · obtain ⟨chan, hchan, rfl⟩ := List.mem_map.mp hx
      refine .inr ⟨_, _, rfl, ha, hlive, .inr ?_⟩
      simp [Address.inGroup, holdsFields_of_isLive hlive, hgroup, Request.channel, hchan]
  | refuse hc | timeout hc | abandon hc | dropWaiting _ hc => exact borrowed_set hs hc nofun
  | send hc hphase =>
    exact borrowed_set hs hc fun _ => ⟨by simp [Call.pending, hphase], by split <;> simp⟩
  | answer hc | canceled hc =>
    rw [resumeStream_calls]
    exact borrowed_set hs hc nofun
  | item =>
    intro x hx hpending
    rcases List.mem_append.mp hx with hx | hx
    · exact hs x hx hpending
    · obtain rfl := List.mem_singleton.mp hx
      exact .inl ⟨⟨_, _, rfl⟩, nofun⟩
  | itemRefused =>
    intro x hx hpending
    rcases List.mem_append.mp hx with hx | hx
    · exact hs x hx hpending
    · obtain rfl := List.mem_singleton.mp hx
      cases hpending
  | cancel =>
    rw [cancelHandler_frame]
    exact hs
  | doSend | doRun | stream | dropIdle => exact hs

theorem AddressMove.borrows {s t : State A} {act : AddressAct} (h : AddressMove s act t)
    {call : Call A} (hcall : call ∈ s.calls) (hpending : call.pending = true)
    (hs : Borrows s call) : Borrows t call := by
  obtain ⟨a, addr, hborrow, ha, hlive, hgroup⟩ := hs
  have hkeep : ∀ {b : Nat} {x y : Address}, s.addresses[b]? = some x → b ≠ a →
      (s.addresses.set b y)[a]? = some addr := by
    intro b x y _ hba
    rwa [List.getElem?_set_ne hba]
  have hphase : ∀ {b : Nat} {x : Address}, s.addresses[b]? = some x → x.phase ≠ .live → b ≠ a := by
    rintro b x hb hx rfl
    obtain rfl := Option.some.inj (hb.symm.trans ha)
    exact hx (phase_of_isLive hlive)
  cases h with
  | clone => exact ⟨a, addr, hborrow, getElem?_append_of ha, hlive, hgroup⟩
  | drop hb _ hfree =>
    refine ⟨a, addr, hborrow, hkeep hb ?_, hlive, hgroup⟩
    rintro rfl
    have hnone := List.all_eq_true.mp hfree call hcall
    simp [hborrow, hpending] at hnone
  | marker hb hpos | lock hb hpos | unlock hb hpos | release hb hpos =>
    exact ⟨a, addr, hborrow, hkeep hb (hphase hb (by simp [hpos])), hlive, hgroup⟩
  | cancel hb hpos =>
    rw [cancelHandler_frame]
    exact ⟨a, addr, hborrow, hkeep hb (hphase hb (by simp [hpos])), hlive, hgroup⟩
  | upgradeReturn => exact ⟨a, addr, hborrow, getElem?_append_of ha, hlive, hgroup⟩
  | downgrade | upgradeSender | upgradeCount | upgradePanic =>
    exact ⟨a, addr, hborrow, ha, hlive, hgroup⟩

theorem streamKnows_set {s : State A} {c : Nat} {call : Call A} {phase : CallPhase A}
    (hs : ∀ (n : Nat) (x : Call A), s.calls[n]? = some x → StreamKnows s.streams n x)
    (hc : s.calls[c]? = some call)
    (hphase : ({ call with phase := phase } : Call A).pending = true → call.pending = true) :
    ∀ (n : Nat) (x : Call A), (s.calls.set c { call with phase := phase })[n]? = some x →
      StreamKnows s.streams n x := by
  intro n x hx st msg hreq
  rcases getElem?_set_cases hx with ⟨rfl, rfl⟩ | ⟨_, hx⟩
  · obtain ⟨haddress, hlast⟩ := hs _ call hc st msg hreq
    exact ⟨haddress, fun hpending => hlast (hphase hpending)⟩
  · exact hs n x hx st msg hreq

theorem streamKnows_over {s : State A} {c st : Nat} {call : Call A} {phase : CallPhase A}
    {stream : StreamPhase}
    (hs : ∀ (n : Nat) (x : Call A), s.calls[n]? = some x → StreamKnows s.streams n x)
    (hc : s.calls[c]? = some call)
    (hphase : ({ call with phase := phase } : Call A).pending = false)
    (hst : s.streams[st]? = some (.last c)) :
    ∀ (n : Nat) (x : Call A), (s.calls.set c { call with phase := phase })[n]? = some x →
      StreamKnows (s.streams.set st stream) n x := by
  intro n x hx st' msg hreq
  rcases getElem?_set_cases hx with ⟨rfl, rfl⟩ | ⟨hn, hx⟩
  · obtain ⟨haddress, _⟩ := hs _ call hc st' msg hreq
    exact ⟨haddress, fun hpending => by simp [hphase] at hpending⟩
  · obtain ⟨haddress, hlast⟩ := hs n x hx st' msg hreq
    refine ⟨haddress, fun hpending => ?_⟩
    have hlast := hlast hpending
    have hne : st ≠ st' := by
      rintro rfl
      rw [hst] at hlast
      cases hlast
      exact hn rfl
    rwa [List.getElem?_set_ne hne]

theorem streamKnows_idle {s : State A} {st : Nat} {stream : StreamPhase}
    (hs : ∀ (n : Nat) (x : Call A), s.calls[n]? = some x → StreamKnows s.streams n x)
    (hst : s.streams[st]? = some .next) :
    ∀ (n : Nat) (x : Call A), s.calls[n]? = some x →
      StreamKnows (s.streams.set st stream) n x := by
  intro n x hx st' msg hreq
  obtain ⟨haddress, hlast⟩ := hs n x hx st' msg hreq
  refine ⟨haddress, fun hpending => ?_⟩
  have hlast := hlast hpending
  have hne : st ≠ st' := by
    rintro rfl
    rw [hst] at hlast
    cases hlast
  rwa [List.getElem?_set_ne hne]

theorem streamKnows_resume {s : State A} {c : Nat} {call : Call A} {out : Outcome A}
    (hs : ∀ (n : Nat) (x : Call A), s.calls[n]? = some x → StreamKnows s.streams n x)
    (hc : s.calls[c]? = some call) (hpending : call.pending = true) :
    let t := (s.setCall c { call with phase := .done out }).resumeStream call.req
    ∀ (n : Nat) (x : Call A), t.calls[n]? = some x → StreamKnows t.streams n x := by
  obtain ⟨address, req, phase⟩ := call
  intro t n x hx
  cases req with
  | item st msg => exact streamKnows_over hs hc (by rfl) ((hs c _ hc st msg rfl).2 hpending) n x hx
  | _ => exact streamKnows_set hs hc (fun _ => hpending) n x hx

theorem RequestMove.streamKnows {s t : State A} {act : RequestAct A} (h : RequestMove s act t)
    (hs : ∀ (n : Nat) (x : Call A), s.calls[n]? = some x → StreamKnows s.streams n x) :
    ∀ (n : Nat) (x : Call A), t.calls[n]? = some x → StreamKnows t.streams n x := by
  cases h with
  | call ha hlive hreq =>
    intro n x hx st msg hitem
    rcases getElem?_append_cases hx with ⟨_, rfl⟩ | hx
    · have hitem : _ = Request.item st msg := hitem
      subst hitem
      cases hreq
    · exact hs n x hx st msg hitem
  | @broadcast a _ group msg ha hgroup hlive =>
    intro n x hx st msg' hitem
    rcases Nat.lt_or_ge n s.calls.length with hn | hn
    · rw [List.getElem?_append_left hn] at hx
      exact hs n x hx st msg' hitem
    · rw [List.getElem?_append_right hn, List.getElem?_map] at hx
      obtain ⟨chan, _, rfl⟩ := Option.map_eq_some_iff.mp hx
      cases hitem
  | refuse hc | timeout hc | abandon hc => exact streamKnows_set hs hc fun h => by cases h
  | send hc hphase => exact streamKnows_set hs hc fun _ => by simp [Call.pending, hphase]
  | answer hc hphase | canceled hc hphase =>
    exact streamKnows_resume hs hc (by simp [Call.pending, hphase])
  | stream =>
    intro n x hx st msg hitem
    obtain ⟨haddress, hlast⟩ := hs n x hx st msg hitem
    exact ⟨haddress, fun hpending => getElem?_append_of (hlast hpending)⟩
  | @item st msg hst =>
    intro n x hx st' msg' hitem
    rcases getElem?_append_cases hx with ⟨hn, rfl⟩ | hx
    · cases hitem
      refine ⟨rfl, fun _ => ?_⟩
      rw [hn, getElem?_set_self_of hst]
      rfl
    · exact streamKnows_idle hs hst n x hx st' msg' hitem
  | itemRefused =>
    intro n x hx st msg hitem
    rcases getElem?_append_cases hx with ⟨_, rfl⟩ | hx
    · exact ⟨rfl, fun hpending => by cases hpending⟩
    · exact hs n x hx st msg hitem
  | dropIdle hst => exact streamKnows_idle hs hst
  | dropWaiting hst hc => exact streamKnows_over hs hc rfl hst
  | cancel =>
    rw [cancelHandler_frame]
    exact hs
  | doSend | doRun => exact hs

/-- The context at index `i` answers request `tx`, whose message it has in hand. -/
structure Answers (s t : State A) (i tx : Nat) (reply : Reply A) : Prop where
  hand : ∃ c env, s.contexts[i]? = some c ∧ c.pos.hand = some env ∧
    (env.msg.tx = some tx ∨ ∃ handler, c.pos = .reply env tx handler) ∧
    t.handled = s.handled ++ [⟨i, env, some reply⟩]
  waiting : ∃ call : Call A, s.calls[tx]? = some call ∧ call.phase = .waiting none ∧
    t.calls = s.calls.set tx { call with phase := .waiting (some reply) }

theorem Moves.calls_cases {s t : State A} {act : Act A} (h : Moves s act t) :
    (∃ ract, act = .request ract ∧ RequestMove s ract t) ∨
      t.streams = s.streams ∧ (t.calls = s.calls ∨ ∃ i tx reply, Answers s t i tx reply) := by
  cases h with
  | address h =>
    rw [h.frame]
    exact .inr ⟨rfl, .inl rfl⟩
  | request h => exact .inl ⟨_, rfl, h⟩
  | poll h =>
    rw [h.frame]
    exact .inr ⟨rfl, .inl rfl⟩
  | elapseDelayed | elapseInterval => exact .inr ⟨rfl, .inl rfl⟩
  | @context i _ _ c _ hc h =>
    have hstreams : t.streams = s.streams := by rw [h.frame]
    rcases h.calls_cases with
      hsame | ⟨env, tx, call, reply, hhand, htx, hcall, hphase, hset, hhandled⟩
    · exact .inr ⟨hstreams, .inl hsame⟩
    · exact .inr ⟨hstreams, .inr ⟨i, tx, reply, ⟨c, env, hc, hhand, htx, hhandled⟩,
        ⟨call, hcall, hphase, hset⟩⟩⟩
  | panic hc h =>
    cases h
    exact .inr ⟨rfl, .inl rfl⟩

theorem HolderInv.step {s t : State A} {act : Act A} (h : step s act = some t)
    (hs : HolderInv s) : HolderInv t := by
  have hmove := Moves.of_step h
  have hborrows : ∀ x ∈ s.calls, Borrows s x → x.pending = true → Borrows t x := by
    intro x hx hborrow hpending
    rcases hmove.address_or_same with ⟨_, _, haddress⟩ | ⟨_, haddresses, _⟩
    · exact haddress.borrows hx hpending hborrow
    · unfold Borrows
      rwa [haddresses]
  have hkeep : ∀ x ∈ s.calls, x.pending = true → x.IsItem ∨ Borrows t x := fun x hx hpending =>
    (hs.borrowed x hx hpending).imp id fun hborrow => hborrows x hx hborrow hpending
  rcases hmove.calls_cases with ⟨ract, rfl, hreq⟩ | ⟨hstreams, hsame | ⟨_, _, _, hanswer⟩⟩
  · refine ⟨?_, hreq.streamKnows hs.streams⟩
    have hafter := hreq.borrows hs.borrowed
    unfold Borrows at hafter ⊢
    rw [show t.addresses = s.addresses by rw [hreq.frame]]
    exact hafter
  · refine ⟨?_, ?_⟩
    · rw [hsame]
      exact hkeep
    · rw [hsame, hstreams]
      exact hs.streams
  · obtain ⟨call, hc, hphase, hset⟩ := hanswer.waiting
    have hpending : call.pending = true := by simp [Call.pending, hphase]
    refine ⟨?_, ?_⟩
    · rw [hset]
      intro x hx hwaiting
      rcases List.mem_or_eq_of_mem_set hx with hx | rfl
      · exact hkeep x hx hwaiting
      · exact (hkeep call (List.mem_of_getElem? hc) hpending).imp
          (fun hitem => ⟨hitem.1, nofun⟩) id
    · rw [hset, hstreams]
      exact streamKnows_set hs.streams hc fun _ => hpending

theorem Started.holderInv {cfg : Config} {build : Nat → A.State} {s : State A}
    (h : Started cfg build s) : HolderInv s := by
  obtain ⟨w, rfl, _⟩ := h.exists_wiring
  constructor <;> simp [Wiring.finish]

end ActixSend
