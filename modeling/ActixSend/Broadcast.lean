import ActixSend.Lifetime
import ActixSend.Outcome
import ActixSend.Transition.Batch
import ActixSend.Transition.Lookup

/-! # Broadcasts

A broadcast makes one future for each channel of the group and collects what
they yield in the order they finish. Each of these channels has one context
listening on it, so that what the futures yield is one outcome for one context.
-/

namespace ActixSend

open Transition
set_option autoImplicit false

variable {A : Actor}

def Request.batch : Request A → Option Nat
  | .entry batch _ _ => some batch
  | _ => none

def Call.outcome (call : Call A) : Option (Outcome A) :=
  match call.phase with
  | .done out => some out
  | _ => none

namespace State

def entries (s : State A) (b : Nat) : List (Call A) :=
  s.calls.filter fun call => call.req.batch == some b

/-- All futures of the broadcast are done, so that `collect` is. -/
def returned (s : State A) (b : Nat) : Prop := ∀ call ∈ s.entries b, call.outcome.isSome = true

def outcomes (s : State A) (b : Nat) : List (Outcome A) := (s.entries b).filterMap Call.outcome

def isCopy (s : State A) (b : Nat) (env : Envelope A) : Bool :=
  (env.msg.tx.bind fun tx => (s.calls[tx]?).bind fun call => call.req.batch) == some b

def copies (s : State A) (b : Nat) : List (Handled A) := s.handled.filter fun h => s.isCopy b h.env

end State

/-- `M::map` of the result of handling `msg`. -/
def Handled.mapped (msg : A.Message) (h : Handled A) : Option (Outcome A) :=
  match h.reply with
  | some (.result r) => some (.ofMap (A.map (A.kind msg) r))
  | _ => none

/-- `M::map` answers with no error of the channels; the generated ones answer
`Ok` or what became of the blocking code. -/
def MapsPlainly (A : Actor) (kind : A.Kind) : Prop :=
  ∀ r e, A.map kind r = some (.error e) → e.ofChannel = false

/-- Broadcast `b` of `msg` to `n` contexts. -/
structure OnePerContext (s : State A) (b n : Nat) (msg : A.Message) : Prop where
  copies : ((s.copies b).map Handled.context).Nodup
  mapped : ∀ h ∈ s.copies b, (h.mapped msg).isSome = true
  yields : s.returned b → (s.outcomes b).length = n
  others : s.returned b → ∃ others,
    (s.outcomes b).Perm ((s.copies b).filterMap (Handled.mapped msg) ++ others) ∧
      ∀ out ∈ others, out.ofChannel = true
  counted : MapsPlainly A (A.kind msg) → s.returned b →
    ((s.outcomes b).filter fun out => !out.ofChannel).Perm
      ((s.copies b).filterMap (Handled.mapped msg))

theorem CallTurn.req {s t : State A} {act : Act A} {tx : Nat} {call call' : Call A}
    (h : CallTurn s t act tx call call') : call'.req = call.req := by
  cases h <;> rfl

/-- The invariant of a set that `Builder::start` made for `n` contexts. -/
structure BatchInv (n : Nat) (s : State A) : Prop where
  listens : ∀ (i : Nat) (c : Context A), s.contexts[i]? = some c →
    c.rx = 0 ∧ c.selector = some (i + 1)
  group : GroupInv (some ((List.range n).map (· + 1))) s
  batches : ∀ (tx : Nat) (call : Call A) (b : Nat), s.calls[tx]? = some call →
    call.req.batch = some b → b ≤ tx ∧ tx < b + n

theorem batch_of_isRequest {req : Request A} (h : State.isRequest req = true) :
    req.batch = none := by
  cases req <;> first | rfl | cases h

theorem BatchInv.new_batch {n : Nat} {s t : State A} {act : Act A} {tx b : Nat} {call : Call A}
    (hs : BatchInv n s) (h : Moves s act t) (hnew : s.calls.length ≤ tx)
    (hcall : t.calls[tx]? = some call) (hb : call.req.batch = some b) : b ≤ tx ∧ tx < b + n := by
  have hold : ∀ calls : List (Call A), calls.length = s.calls.length → calls[tx]? ≠ some call := by
    intro calls hlen hcall
    rw [List.getElem?_eq_none (by omega)] at hcall
    cases hcall
  have hlast : ∀ x : Call A, x.req.batch = none → (s.calls ++ [x])[tx]? ≠ some call := by
    intro x hx hcall
    rcases getElem?_append_cases hcall with ⟨_, rfl⟩ | hcall
    · rw [hx] at hb
      cases hb
    · exact hold _ rfl hcall
  rcases h.calls_cases with ⟨ract, rfl, hreq⟩ | ⟨_, hsame | ⟨_, _, _, hanswers⟩⟩
  · cases hreq with
    | @broadcast a addr group msg ha hgroup =>
      rw [List.getElem?_append_right hnew, List.getElem?_map] at hcall
      obtain ⟨chan, hchan, rfl⟩ := Option.map_eq_some_iff.mp hcall
      obtain rfl : s.calls.length = b := Option.some.inj hb
      have hlen : group.length = n := by
        have hsame := hs.group.addresses addr (List.mem_of_getElem? ha)
        rw [hgroup] at hsame
        rw [Option.some.inj hsame]
        simp
      obtain ⟨hlt, _⟩ := List.getElem?_eq_some_iff.mp hchan
      omega
    | call _ _ hreq => exact absurd hcall (hlast _ (batch_of_isRequest hreq))
    | item | itemRefused => exact absurd hcall (hlast _ rfl)
    | refuse | send | timeout | abandon | dropWaiting => exact absurd hcall (hold _ List.length_set)
    | answer | canceled =>
      rw [resumeStream_calls] at hcall
      exact absurd hcall (hold _ List.length_set)
    | cancel =>
      rw [cancelHandler_frame] at hcall
      exact absurd hcall (hold _ rfl)
    | doSend | doRun | stream | dropIdle => exact absurd hcall (hold _ rfl)
  · rw [hsame] at hcall
    exact absurd hcall (hold _ rfl)
  · obtain ⟨_, _, _, hset⟩ := hanswers.waiting
    rw [hset] at hcall
    exact absurd hcall (hold _ List.length_set)

theorem BatchInv.step {n : Nat} {s t : State A} {act : Act A} (h : step s act = some t)
    (hs : BatchInv n s) : BatchInv n t := by
  have hmove := Moves.of_step h
  refine ⟨?_, hs.group.step h, ?_⟩
  · intro i c hc
    rcases hmove.contexts_cases with hsame | ⟨j, cj, c', hcj, _, hset, hrx, hselector, _⟩
    · rw [hsame] at hc
      exact hs.listens i c hc
    · rw [hset] at hc
      rcases getElem?_set_cases hc with ⟨rfl, rfl⟩ | ⟨_, hc⟩
      · rw [hrx, hselector]
        exact hs.listens i cj hcj
      · exact hs.listens i c hc
  · intro tx call b hcall hb
    rcases Nat.lt_or_ge tx s.calls.length with hlt | hge
    · obtain ⟨call', hcall', hreq, _⟩ := hmove.continues tx _ (List.getElem?_eq_getElem hlt)
      obtain rfl := Option.some.inj (hcall.symm.trans hcall')
      rw [hreq] at hb
      exact hs.batches tx _ b (List.getElem?_eq_getElem hlt) hb
    · exact hs.new_batch hmove hge hcall hb

theorem start_batchInv (cfg : Config) (build : Nat → A.State) (h : cfg.allowBroadcast = true) :
    BatchInv cfg.num (Builder.start cfg build) := by
  rw [start_eq]
  refine ⟨?_, ⟨?_, nofun, nofun⟩, nofun⟩
  · intro i c hc
    simp only [Wiring.finish, wired_contexts, List.getElem?_map] at hc
    obtain ⟨k, hk, rfl⟩ := Option.map_eq_some_iff.mp hc
    obtain ⟨_, rfl⟩ := List.getElem?_eq_some_iff.mp hk
    simp [Context.new, selectorOf, h]
  · intro addr haddr
    obtain rfl := List.mem_singleton.mp haddr
    simp [Address.new, h, (wired_channels cfg build _ h cfg.num).2]

/-- The state after broadcast `b` of `msg` to `n` contexts. -/
structure Broadcasting (b n : Nat) (msg : A.Message) (s : State A) : Prop where
  outcome : OutcomeInv s
  batch : BatchInv n s
  futures : ∀ k < n, ∃ call : Call A, s.calls[b + k]? = some call ∧
    call.req = .entry b (k + 1) msg

theorem Broadcasting.step {b n : Nat} {msg : A.Message} {s t : State A} {act : Act A}
    (h : step s act = some t) (hs : Broadcasting b n msg s) : Broadcasting b n msg t := by
  refine ⟨hs.outcome.step h, hs.batch.step h, fun k hk => ?_⟩
  obtain ⟨call, hcall, hreq⟩ := hs.futures k hk
  obtain ⟨call', hcall', hsame, _⟩ := (Moves.of_step h).continues _ call hcall
  exact ⟨call', hcall', by rw [hsame, hreq]⟩

theorem broadcasting_of_step {n a : Nat} {msg : A.Message} {s t : State A}
    (h : step s (.request (.broadcast a msg)) = some t) (hout : OutcomeInv s)
    (hbatch : BatchInv n s) : Broadcasting s.calls.length n msg t := by
  refine ⟨hout.step h, hbatch.step h, fun k hk => ?_⟩
  have hstep : s.requestStep (.broadcast a msg) = some t := h
  cases RequestMove.of_step hstep with
  | @broadcast _ addr group _ ha hgroup =>
    have hsame := hbatch.group.addresses addr (List.mem_of_getElem? ha)
    rw [hgroup] at hsame
    obtain rfl := Option.some.inj hsame
    refine ⟨⟨some a, .entry s.calls.length (k + 1) msg, .sending⟩, ?_, rfl⟩
    rw [List.getElem?_append_right (Nat.le_add_right _ _), Nat.add_sub_cancel_left]
    simp [hk]

section Facts
variable {b n : Nat} {msg : A.Message} {s : State A}

theorem Broadcasting.place (hs : Broadcasting b n msg s) {tx : Nat} {call : Call A}
    (hcall : s.calls[tx]? = some call) : call.req.batch = some b ↔ b ≤ tx ∧ tx < b + n := by
  constructor
  · exact hs.batch.batches tx call b hcall
  · rintro ⟨hge, hlt⟩
    obtain ⟨call', hcall', hreq⟩ := hs.futures (tx - b) (by omega)
    rw [Nat.add_sub_cancel' hge] at hcall'
    obtain rfl := Option.some.inj (hcall.symm.trans hcall')
    rw [hreq]
    rfl

theorem Broadcasting.entries_eq (hs : Broadcasting b n msg s) :
    s.entries b = (List.range n).filterMap fun k => s.calls[b + k]? :=
  filter_eq_batch fun k call hcall => by rw [beq_iff_eq, hs.place hcall]

theorem Broadcasting.entries_length (hs : Broadcasting b n msg s) : (s.entries b).length = n := by
  rw [hs.entries_eq, List.length_filterMap_eq_countP]
  have hall : (List.range n).countP (fun k => (s.calls[b + k]?).isSome) =
      (List.range n).length := by
    rw [List.countP_eq_length]
    intro k hk
    obtain ⟨call, hcall, _⟩ := hs.futures k (List.mem_range.mp hk)
    rw [hcall]
    rfl
  rw [hall, List.length_range]

theorem Broadcasting.copy (hs : Broadcasting b n msg s) {h : Handled A} (hh : h ∈ s.copies b) :
    h ∈ s.handled ∧ h.context < n ∧ h.env.msg = .instant (.static (some (b + h.context)) msg) := by
  obtain ⟨hhandled, hcopy⟩ := List.mem_filter.mp hh
  rw [State.isCopy, beq_iff_eq] at hcopy
  obtain ⟨tx, htx, hcopy⟩ := Option.bind_eq_some_iff.mp hcopy
  obtain ⟨call, hcall, hbatch⟩ := Option.bind_eq_some_iff.mp hcopy
  obtain ⟨hge, hlt⟩ := (hs.place hcall).mp hbatch
  obtain ⟨chan, htaken, haccepted⟩ := hs.outcome.oneshot.channel.accepted_of_handled hhandled
  obtain ⟨call', hcall', hchan, hmsg, _⟩ :=
    hs.outcome.oneshot.request.sent chan h.env haccepted tx htx
  obtain rfl := Option.some.inj (hcall.symm.trans hcall')
  obtain ⟨call', hcall', hreq⟩ := hs.futures (tx - b) (by omega)
  rw [Nat.add_sub_cancel' hge] at hcall'
  obtain rfl := Option.some.inj (hcall.symm.trans hcall')
  rw [hreq] at hchan hmsg
  obtain ⟨c, hc, hlistens⟩ := hs.outcome.oneshot.listens h.context chan h.env htaken
  obtain ⟨hrx, hselector⟩ := hs.batch.listens h.context c hc
  have hchan : tx - b + 1 = chan := hchan
  have hcontext : tx = b + h.context := by
    rcases hlistens with hlistens | hlistens
    · omega
    · rw [hselector] at hlistens
      have hsame := Option.some.inj hlistens
      omega
  refine ⟨hhandled, by omega, ?_⟩
  rw [hmsg, hcontext]
  rfl

theorem OneshotInv.handled_unique (hs : OneshotInv s) {x y : Handled A} {tx : Nat}
    (hx : x ∈ s.handled) (hy : y ∈ s.handled) (htx : x.env.msg.tx = some tx)
    (hty : y.env.msg.tx = some tx) : x = y := by
  obtain ⟨chan, haccepted⟩ := hs.accepted_of_handled hx
  obtain ⟨chan', haccepted'⟩ := hs.accepted_of_handled hy
  have hsame := hs.request.once _ haccepted _ haccepted' tx htx hty
  have hid : x.env.id = y.env.id := by rw [(Prod.mk.inj hsame).2]
  exact List.inj_on_of_nodup_map hs.channel.handled_nodup hx hy hid

def State.copyAt (s : State A) (tx : Nat) : Option (Handled A) :=
  s.handled.find? fun h => h.env.msg.tx == some tx

theorem copyAt_eq_some (hs : OneshotInv s) {tx : Nat} {h : Handled A} :
    s.copyAt tx = some h ↔ h ∈ s.handled ∧ h.env.msg.tx = some tx := by
  constructor
  · intro hfind
    exact ⟨List.mem_of_find?_eq_some hfind, by simpa using List.find?_some hfind⟩
  · rintro ⟨hh, htx⟩
    exact find?_of_unique hh (by simpa using htx) fun x hx htx' =>
      hs.handled_unique hx hh (by simpa using htx') htx

theorem Broadcasting.mem_copies (hs : Broadcasting b n msg s) {k : Nat} (hk : k < n)
    {h : Handled A} (hh : h ∈ s.handled) (htx : h.env.msg.tx = some (b + k)) : h ∈ s.copies b := by
  obtain ⟨call, hcall, hreq⟩ := hs.futures k hk
  refine List.mem_filter.mpr ⟨hh, ?_⟩
  simp [State.isCopy, htx, hcall, hreq, Request.batch]

theorem Broadcasting.copies_perm (hs : Broadcasting b n msg s) :
    (s.copies b).Perm ((List.range n).filterMap fun k => s.copyAt (b + k)) := by
  have honeshot := hs.outcome.oneshot
  have hnodup : (s.copies b).Nodup :=
    (honeshot.channel.handled_nodup.of_map _).filter _
  apply perm_batch Handled.context hnodup
  · intro k hk h
    rw [copyAt_eq_some honeshot]
    constructor
    · rintro ⟨hh, htx⟩
      have hcopy := hs.mem_copies hk hh htx
      obtain ⟨_, _, hmsg⟩ := hs.copy hcopy
      rw [hmsg] at htx
      have hsame := Option.some.inj htx
      exact ⟨hcopy, by omega⟩
    · rintro ⟨hcopy, rfl⟩
      obtain ⟨hh, _, hmsg⟩ := hs.copy hcopy
      exact ⟨hh, by rw [hmsg]; rfl⟩
  · intro h hh
    exact (hs.copy hh).2.1

theorem Broadcasting.mapped (hs : Broadcasting b n msg s) {h : Handled A} (hh : h ∈ s.copies b) :
    ∃ r, h.reply = some (.result r) := by
  obtain ⟨hhandled, _, hmsg⟩ := hs.copy hh
  have hgenuine := hs.outcome.answer.genuine h hhandled
  simp only [Genuine, hmsg] at hgenuine
  obtain ⟨st, await, hreply⟩ := hgenuine
  exact ⟨_, hreply⟩

theorem Broadcasting.yields (hs : Broadcasting b n msg s) (hreturned : s.returned b) {k : Nat}
    (hk : k < n) :
    (s.calls[b + k]?).bind Call.outcome = (s.copyAt (b + k)).bind (Handled.mapped msg) ∨
      (s.copyAt (b + k)).bind (Handled.mapped msg) = none ∧
        ∃ out, (s.calls[b + k]?).bind Call.outcome = some out ∧ out.ofChannel = true := by
  have honeshot := hs.outcome.oneshot
  obtain ⟨call, hcall, hreq⟩ := hs.futures k hk
  have hentry : call ∈ s.entries b :=
    List.mem_filter.mpr ⟨List.mem_of_getElem? hcall, by simp [hreq, Request.batch]⟩
  obtain ⟨out, hout⟩ := Option.isSome_iff_exists.mp (hreturned call hentry)
  have hphase : call.phase = .done out := by
    unfold Call.outcome at hout
    split at hout
    · rename_i hdone
      rw [hdone, Option.some.inj hout]
    · cases hout
  have hfate := hs.outcome.fate _ call hcall (by rw [hreq]; rfl)
  simp only [Fate, hphase] at hfate
  rw [hcall, Option.bind_some, hout]
  rcases hfate with ⟨h, hh, htx, r, hreply, rfl⟩ | ⟨hchannel, hdead⟩
  · obtain ⟨r', hreply'⟩ := hs.mapped (hs.mem_copies hk hh htx)
    obtain rfl := Option.some.inj (hreply.symm.trans hreply')
    rw [(copyAt_eq_some honeshot).mpr ⟨hh, htx⟩, Option.bind_some, Handled.mapped, hreply, hreq]
    exact .inl rfl
  · have hnone : s.copyAt (b + k) = none := by
      rw [Option.eq_none_iff_forall_ne_some]
      rintro h hfind
      exact hdead.handled ⟨h, (copyAt_eq_some honeshot).mp hfind⟩
    rw [hnone]
    exact .inr ⟨rfl, out, rfl, hchannel⟩

theorem Broadcasting.exists_others (hs : Broadcasting b n msg s) (hreturned : s.returned b) :
    ∃ others, (s.outcomes b).Perm ((s.copies b).filterMap (Handled.mapped msg) ++ others) ∧
      ∀ out ∈ others, out.ofChannel = true := by
  obtain ⟨others, hperm, hothers⟩ := exists_perm_append (List.range n) fun k hk =>
    hs.yields hreturned (List.mem_range.mp hk)
  refine ⟨others, ?_, hothers⟩
  have hmapped := hs.copies_perm.filterMap (Handled.mapped msg)
  rw [List.filterMap_filterMap] at hmapped
  rw [State.outcomes, hs.entries_eq, List.filterMap_filterMap]
  exact hperm.trans (hmapped.symm.append_right others)

theorem ofChannel_of_mapped (hmap : MapsPlainly A (A.kind msg)) {h : Handled A} {out : Outcome A}
    (hout : h.mapped msg = some out) : out.ofChannel = false := by
  unfold Handled.mapped at hout
  split at hout
  · rename_i r _
    obtain rfl := Option.some.inj hout
    cases hr : A.map (A.kind msg) r with
    | none => rfl
    | some res =>
      cases res with
      | ok v => rfl
      | error e => exact hmap r e hr
  · cases hout

theorem Broadcasting.onePerContext (hs : Broadcasting b n msg s) : OnePerContext s b n msg := by
  refine ⟨?_, ?_, ?_, hs.exists_others, ?_⟩
  · refine List.Nodup.map_on ?_ ((hs.outcome.oneshot.channel.handled_nodup.of_map _).filter _)
    intro x hx y hy hsame
    obtain ⟨hx', _, hmsgx⟩ := hs.copy hx
    obtain ⟨hy', _, hmsgy⟩ := hs.copy hy
    rw [← hsame] at hmsgy
    exact hs.outcome.oneshot.handled_unique hx' hy' (by rw [hmsgx]; rfl) (by rw [hmsgy]; rfl)
  · intro h hh
    obtain ⟨r, hreply⟩ := hs.mapped hh
    simp [Handled.mapped, hreply]
  · intro hreturned
    rw [State.outcomes, List.length_filterMap_eq_countP, List.countP_eq_length.mpr hreturned,
      hs.entries_length]
  · intro hmap hreturned
    obtain ⟨others, hperm, hothers⟩ := hs.exists_others hreturned
    have hkeep : ∀ out ∈ (s.copies b).filterMap (Handled.mapped msg),
        (!out.ofChannel) = true := by
      intro out hout
      obtain ⟨h, _, hmapped⟩ := List.mem_filterMap.mp hout
      rw [ofChannel_of_mapped hmap hmapped]
      rfl
    have hnone : others.filter (fun out => !out.ofChannel) = [] :=
      List.filter_eq_nil_iff.mpr fun out hout => by simp [hothers out hout]
    have hfilter := hperm.filter fun out => !out.ofChannel
    rwa [List.filter_append, List.filter_eq_self.mpr hkeep, hnone, List.append_nil] at hfilter

end Facts

section Runs
variable {cfg : Config} {build : Nat → A.State} {t : State A} {ms : List (Move (State A) (Act A))}

theorem broadcast_one_per_context (hcfg : cfg.allowBroadcast = true)
    (h : Path step (Builder.start cfg build) ms t) {m : Move (State A) (Act A)} (hm : m ∈ ms)
    {a : Nat} {msg : A.Message} (hact : m.act = .request (.broadcast a msg)) :
    OnePerContext t m.src.calls.length cfg.num msg := by
  obtain ⟨ps, qs, _, hps, hstep, hqs⟩ := h.exists_split hm
  have hinv : OutcomeInv m.src ∧ BatchInv cfg.num m.src :=
    hps.invariant (I := fun u => OutcomeInv u ∧ BatchInv cfg.num u)
      ⟨Started.start.outcomeInv, start_batchInv cfg build hcfg⟩
      fun _ _ _ hstep hu => ⟨hu.1.step hstep, hu.2.step hstep⟩
  rw [hact] at hstep
  have hafter := broadcasting_of_step hstep hinv.1 hinv.2
  have hend : Broadcasting m.src.calls.length cfg.num msg t :=
    hqs.invariant hafter fun _ _ _ hstep hu => hu.step hstep
  exact hend.onePerContext

def Act.isBroadcast : Act A → Bool
  | .request (.broadcast _ _) => true
  | _ => false

/-- One context answers its copy, the other was closed before it could be sent one. -/
theorem broadcast_to_a_closed_context :
    ∃ ms t, Path step (echoStart { Config.default with num := 2, allowBroadcast := true }) ms t ∧
      t.returned 1 ∧ (t.copies 1).map Handled.context = [0] ∧ OnePerContext t 1 2 (true, 7) := by
  obtain ⟨ms, t, hpath, hacts, hp, hq⟩ := exists_path_of_checkedRun step
    (echoStart { Config.default with num := 2, allowBroadcast := true })
    [.context 0 0 (), .context 0 0 (), .context 1 0 (), .context 1 0 (),
      .request (.call 0 .closeOne), .request (.send 0), .context 1 0 (), .context 1 0 (),
      .context 1 0 (), .context 1 0 (), .request (.broadcast 0 (true, 7)), .request (.send 1),
      .request (.send 2), .context 0 1 (), .context 0 1 (), .request (.receive 1)]
    (fun u act _ => !act.isBroadcast || u.calls.length == 1)
    (fun t => (t.entries 1).all (fun call => call.outcome.isSome) &&
      (t.copies 1).map Handled.context == [0]) (by decide)
  obtain ⟨m, hm, hact⟩ : ∃ m ∈ ms, m.act = .request (.broadcast 0 (true, 7)) := by
    rw [← List.mem_map, hacts]
    simp
  have hbatch : m.src.calls.length = 1 := by simpa [hact, Act.isBroadcast] using hp m hm
  rw [Bool.and_eq_true, List.all_eq_true, beq_iff_eq] at hq
  refine ⟨ms, t, hpath, hq.1, hq.2, ?_⟩
  rw [← hbatch]
  exact broadcast_one_per_context rfl hpath hm hact

end Runs

end ActixSend
