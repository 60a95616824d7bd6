import ActixSend.Interchange
import ActixSend.Object
import ActixSend.Transition.Batch

/-! # The subscribers that a message reaches

`send_subscribe` takes the lock of the list, makes one future for each entry
and keeps the entries that have a result. An entry has one when the message
can be unpacked as the type it was subscribed with.
-/

namespace ActixSend

open Function Transition
set_option autoImplicit false

variable {N : Network}

/-- `Subscriber::_send`. -/
def World.send (w : World N) (sub : Subscriber N) (msg : N.Val sub.ty) :
    World N × Except ActixSendError Unit :=
  let s := w.sets sub.set
  if s.sharedSender && s.receiver 0 then
    (w.setSet sub.set (s.enqueue 0 (.instant (.static none (N.into sub.set sub.ty msg)))), .ok ())
  else (w, .error .closed)

/-- `SubscribeTrait::send` by the container that its caller packs. -/
theorem deliver_eq_unpack (w : World N) (sub : Subscriber N) (ty : N.Ty) (msg : N.Val ty) :
    w.deliver sub ty msg =
      match ((AnyObjectContainer.pack ty msg).unpack sub.ty).1 with
      | some msg => ((w.send sub msg).1, some (w.send sub msg).2)
      | none => (w, none) := by
  by_cases hty : sub.ty = ty
  · subst hty
    rw [unpack_pack_self]
    simp only [World.deliver, World.send, if_true]
    split <;> rfl
  · rw [unpack_pack_other (Ne.symm hty)]
    simp only [World.deliver, if_neg hty]

def World.pushed (w : World N) (i l : Nat) : WorldAct N → Option (Subscriber N)
  | .poll c => w.subCalls[c]?.bind fun call =>
    match call.phase with
    | .push sub => if call.set = i ∧ call.list = some l then some sub else none
    | _ => none
  | _ => none

/-- The subscriptions that a run makes to list `l` of set `i`, in their order. -/
def subscriptions (i l : Nat) (ms : List (Move (World N) (WorldAct N))) : List (Subscriber N) :=
  ms.filterMap fun m => m.src.pushed i l m.act

def WorldAct.isEntryOf (c : Nat) : WorldAct N → Bool
  | .entry c' _ => c' == c
  | _ => false

def entryPolls (c : Nat) (ms : List (Move (World N) (WorldAct N))) :
    List (Move (World N) (WorldAct N)) :=
  ms.filter fun m => m.act.isEntryOf c

/-- What a poll of an entry comes to: it passes a message of another type by, it
puts the message into an open channel, or it finds the channel closed. -/
inductive EntryOutcome (w : World N) (sub : Subscriber N) (ty : N.Ty) (msg : N.Val ty)
    (v : World N) : Option (Except ActixSendError Unit) → Prop
  | other (hty : sub.ty ≠ ty) (hsets : v.sets = w.sets) : EntryOutcome w sub ty msg v none
  | received (hty : sub.ty = ty)
      (hopen : ((w.sets sub.set).sharedSender && (w.sets sub.set).receiver 0) = true)
      (hsets : v.sets = update w.sets sub.set
        ((w.sets sub.set).enqueue 0 (.instant (.static none (N.into sub.set ty msg))))) :
      EntryOutcome w sub ty msg v (some (.ok ()))
  | closed (hty : sub.ty = ty)
      (hclosed : ((w.sets sub.set).sharedSender && (w.sets sub.set).receiver 0) = false)
      (hsets : v.sets = w.sets) : EntryOutcome w sub ty msg v (some (.error .closed))

def Polls (c : Nat) (subs : List (Subscriber N)) (ty : N.Ty) (msg : N.Val ty)
    (ms : List (Move (World N) (WorldAct N)))
    (results : List (Nat × Option (Except ActixSendError Unit))) : Prop :=
  List.Forall₂ (fun m res => m.act = .entry c res.1 ∧
    ∃ sub, subs[res.1]? = some sub ∧ EntryOutcome m.src sub ty msg m.dst res.2) ms results

/-- A `send_subscribe` that returned `res`: each entry of the list was polled
exactly once, and the results are those of the entries of the message's type. -/
structure SentToAll (c : Nat) (subs : List (Subscriber N)) (ty : N.Ty) (msg : N.Val ty)
    (ms : List (Move (World N) (WorldAct N))) (res : List (Except ActixSendError Unit)) :
    Prop where
  entries : ∃ results, Polls c subs ty msg (entryPolls c ms) results ∧
    (results.map Prod.fst).Perm (List.range subs.length) ∧ res = results.filterMap Prod.snd
  count : res.length = subs.countP fun sub => sub.ty = ty

structure World.Started (cfg : Nat → Config) (build : (i : Nat) → Nat → (N.actor i).State)
    (w : World N) : Prop where
  sets : ∀ i, ActixSend.Started (cfg i) (build i) (w.sets i)
  lists : ∀ i l, w.lists i l = []
  subCalls : w.subCalls = []

/-- All addresses of a set that have a subscriber list share one. -/
structure OneList (w : World N) : Prop where
  address : ∀ i, ∀ addr ∈ (w.sets i).addresses, ∀ l, addr.subs = some l → l = 0
  call : ∀ call ∈ w.subCalls, ∀ l, call.list = some l → l = 0

structure SubscribeLaws (ms : List (Move (World N) (WorldAct N))) (v : World N) : Prop where
  shared : OneList v
  list : ∀ i l, v.lists i l = subscriptions i l ms
  sent : ∀ (c l : Nat) (call : SubCall N) (res : List (Except ActixSendError Unit)),
    v.subCalls[c]? = some call → call.list = some l → call.phase = .sent res →
    ∃ ms₁ m ms₂ ty msg, ms = ms₁ ++ m :: ms₂ ∧ m.act = .poll c ∧
      (∃ n ∈ ms₁, n.act = .sendSubscribe call.set call.address ty msg ∧
        n.src.subCalls.length = c) ∧
      SentToAll c (subscriptions call.set l ms₁) ty msg ms₂ res
  silent : ∀ m ∈ ms, ∀ c, m.act = .poll c ∨ m.act = .abandon c → m.dst.sets = m.src.sets
  returns : ∀ (c : Nat) (call : SubCall N), v.subCalls[c]? = some call →
    (∃ ty msg, call.phase = .lock ty msg) ∨
      (∃ subs ty msg results, call.phase = .sending subs ty msg results) →
    ∃ ns u res, Path World.step v ns u ∧
      u.subCalls[c]? = some { call with phase := .sent res }

section Steps
variable {w v : World N}

theorem deliver_lists (sub : Subscriber N) (ty : N.Ty) (msg : N.Val ty) :
    (w.deliver sub ty msg).1.lists = w.lists := by
  simp only [World.deliver]
  split
  · split <;> rfl
  · rfl

theorem deliver_outcome (w : World N) (sub : Subscriber N) (ty : N.Ty) (msg : N.Val ty) :
    EntryOutcome w sub ty msg (w.deliver sub ty msg).1 (w.deliver sub ty msg).2 := by
  rw [deliver_eq_unpack]
  by_cases hty : sub.ty = ty
  · subst hty
    rw [unpack_pack_self]
    simp only [World.send]
    split
    · exact .received rfl ‹_› rfl
    · exact .closed rfl (Bool.eq_false_iff.mpr ‹_›) rfl
  · rw [unpack_pack_other (Ne.symm hty)]
    exact .other hty rfl

theorem EntryOutcome.isSome {sub : Subscriber N} {ty : N.Ty} {msg : N.Val ty}
    {res : Option (Except ActixSendError Unit)} (h : EntryOutcome w sub ty msg v res) :
    res.isSome = decide (sub.ty = ty) := by
  cases h with
  | other hty => exact (decide_eq_false hty).symm
  | received hty | closed hty => exact (decide_eq_true hty).symm

theorem EntryOutcome.of_sets {v' : World N} {sub : Subscriber N} {ty : N.Ty} {msg : N.Val ty}
    {res : Option (Except ActixSendError Unit)} (h : EntryOutcome w sub ty msg v res)
    (hsame : v'.sets = v.sets) : EntryOutcome w sub ty msg v' res := by
  cases h with
  | other hty hsets => exact .other hty (hsame.trans hsets)
  | received hty hopen hsets => exact .received hty hopen (hsame.trans hsets)
  | closed hty hclosed hsets => exact .closed hty hclosed (hsame.trans hsets)

theorem World.lists_step {act : WorldAct N} (h : w.step act = some v) (i l : Nat) :
    v.lists i l = w.lists i l ++ (w.pushed i l act).toList := by
  have hsame : ∀ {u : World N}, u.lists = w.lists → w.pushed i l act = none →
      u.lists i l = w.lists i l ++ (w.pushed i l act).toList := by
    intro u hu hnone
    rw [hu, hnone, Option.toList_none, List.append_nil]
  cases WorldMove.of_step h with
  | set | subscribeWith | sendSubscribe | abandon => exact hsame rfl rfl
  | entry => exact hsame (deliver_lists _ _ _) rfl
  | lock hc hphase | collect hc hphase =>
    exact hsame rfl (by simp only [World.pushed, hc, Option.bind_some, hphase])
  | @push c l' call sub hc hphase hlist =>
    simp only [World.pushed, hc, Option.bind_some, hphase, hlist, World.setSubCall, World.pushSub]
    by_cases hi : call.set = i
    · subst hi
      by_cases hl : l' = l
      · subst hl
        simp
      · simp [hl, update_of_ne (Ne.symm hl)]
    · simp [hi, update_of_ne (Ne.symm hi)]

theorem World.sets_of_own {act : WorldAct N} (h : w.step act = some v) {c : Nat}
    (hact : act = .poll c ∨ act = .abandon c) : v.sets = w.sets := by
  cases WorldMove.of_step h with
  | push | lock | collect | abandon => rfl
  | _ => simp at hact

end Steps

def Asked (c : Nat) (call : SubCall N) (ty : N.Ty) (msg : N.Val ty)
    (ms : List (Move (World N) (WorldAct N))) : Prop :=
  ∃ m ∈ ms, m.act = .sendSubscribe call.set call.address ty msg ∧ m.src.subCalls.length = c

/-- The call took the lock of its list and has polled these entries since. -/
def Sending (c : Nat) (call : SubCall N) (subs : List (Subscriber N)) (ty : N.Ty) (msg : N.Val ty)
    (results : List (Nat × Option (Except ActixSendError Unit)))
    (ms : List (Move (World N) (WorldAct N))) : Prop :=
  ∃ ms₁ m ms₂ l, ms = ms₁ ++ m :: ms₂ ∧ m.act = .poll c ∧ call.list = some l ∧
    Asked c call ty msg ms₁ ∧ subs = subscriptions call.set l ms₁ ∧
    Polls c subs ty msg (entryPolls c ms₂) results ∧ (results.map Prod.fst).Nodup

inductive SubHistory (c : Nat) (call : SubCall N) (ms : List (Move (World N) (WorldAct N))) :
    SubPhase N → Prop
  | push {sub : Subscriber N} : SubHistory c call ms (.push sub)
  | lock {ty : N.Ty} {msg : N.Val ty} (hlist : call.list.isSome = true)
      (hasked : Asked c call ty msg ms) : SubHistory c call ms (.lock ty msg)
  | sending {subs : List (Subscriber N)} {ty : N.Ty} {msg : N.Val ty}
      {results : List (Nat × Option (Except ActixSendError Unit))}
      (hsending : Sending c call subs ty msg results ms) :
      SubHistory c call ms (.sending subs ty msg results)
  | subscribed {res : Except ActixSendError Unit} : SubHistory c call ms (.subscribed res)
  | refused {res : List (Except ActixSendError Unit)} (hlist : call.list = none) :
      SubHistory c call ms (.sent res)
  | sent {subs : List (Subscriber N)} {ty : N.Ty} {msg : N.Val ty}
      {results : List (Nat × Option (Except ActixSendError Unit))}
      (hsending : Sending c call subs ty msg results ms) (hall : results.length = subs.length) :
      SubHistory c call ms (.sent (results.filterMap Prod.snd))
  | abandoned : SubHistory c call ms .abandoned

section History
variable {w v : World N} {ms : List (Move (World N) (WorldAct N))} {c : Nat} {call : SubCall N}
  {m : Move (World N) (WorldAct N)}

theorem Asked.append {ty : N.Ty} {msg : N.Val ty} (h : Asked c call ty msg ms) :
    Asked c call ty msg (ms ++ [m]) := by
  obtain ⟨n, hn, hact, hlength⟩ := h
  exact ⟨n, List.mem_append_left _ hn, hact, hlength⟩

theorem Sending.append {subs : List (Subscriber N)} {ty : N.Ty} {msg : N.Val ty}
    {results : List (Nat × Option (Except ActixSendError Unit))}
    (h : Sending c call subs ty msg results ms) (hm : m.act.isEntryOf c = false) :
    Sending c call subs ty msg results (ms ++ [m]) := by
  obtain ⟨ms₁, n, ms₂, l, rfl, hact, hlist, hasked, hsubs, hpolls, hnodup⟩ := h
  refine ⟨ms₁, n, ms₂ ++ [m], l, by simp, hact, hlist, hasked, hsubs, ?_, hnodup⟩
  have hsame : entryPolls c (ms₂ ++ [m]) = entryPolls c ms₂ := by
    simp [entryPolls, List.filter_append, hm]
  rwa [hsame]

theorem Polls.outcome {subs : List (Subscriber N)} {ty : N.Ty} {msg : N.Val ty}
    {results : List (Nat × Option (Except ActixSendError Unit))}
    (h : Polls c subs ty msg ms results) {res : Nat × Option (Except ActixSendError Unit)}
    (hres : res ∈ results) : ∃ w v sub, subs[res.1]? = some sub ∧
      EntryOutcome w sub ty msg v res.2 := by
  induction h with
  | nil => cases hres
  | @cons n _ _ _ hentry _ ih =>
    rcases List.mem_cons.mp hres with rfl | hres
    · obtain ⟨_, sub, hk, houtcome⟩ := hentry
      exact ⟨n.src, n.dst, sub, hk, houtcome⟩
    · exact ih hres

theorem Sending.places {subs : List (Subscriber N)} {ty : N.Ty} {msg : N.Val ty}
    {results : List (Nat × Option (Except ActixSendError Unit))}
    (h : Sending c call subs ty msg results ms) :
    (∀ k ∈ results.map Prod.fst, k < subs.length) ∧ (results.map Prod.fst).Nodup := by
  obtain ⟨_, _, _, _, _, _, _, _, _, hpolls, hnodup⟩ := h
  refine ⟨fun k hk => ?_, hnodup⟩
  obtain ⟨res, hres, rfl⟩ := List.mem_map.mp hk
  obtain ⟨_, _, _, hk, _⟩ := hpolls.outcome hres
  exact (List.getElem?_eq_some_iff.mp hk).1

theorem SubHistory.append {phase : SubPhase N} (h : SubHistory c call ms phase)
    (hm : m.act.isEntryOf c = false) : SubHistory c call (ms ++ [m]) phase := by
  cases h with
  | push => exact .push
  | lock hlist hasked => exact .lock hlist hasked.append
  | sending hsending => exact .sending (hsending.append hm)
  | subscribed => exact .subscribed
  | refused hlist => exact .refused hlist
  | sent hsending hall => exact .sent (hsending.append hm) hall
  | abandoned => exact .abandoned

theorem Sending.entry {subs : List (Subscriber N)} {ty : N.Ty} {msg : N.Val ty}
    {results : List (Nat × Option (Except ActixSendError Unit))} {k : Nat} {sub : Subscriber N}
    {res : Option (Except ActixSendError Unit)} (h : Sending c call subs ty msg results ms)
    (hact : m.act = .entry c k) (hk : subs[k]? = some sub)
    (hnew : (results.any fun res => res.1 == k) = false)
    (houtcome : EntryOutcome m.src sub ty msg m.dst res) :
    Sending c call subs ty msg (results ++ [(k, res)]) (ms ++ [m]) := by
  obtain ⟨ms₁, n, ms₂, l, rfl, hlock, hlist, hasked, hsubs, hpolls, hnodup⟩ := h
  refine ⟨ms₁, n, ms₂ ++ [m], l, by simp, hlock, hlist, hasked, hsubs, ?_, ?_⟩
  · have hmore : entryPolls c (ms₂ ++ [m]) = entryPolls c ms₂ ++ [m] := by
      simp [entryPolls, List.filter_append, hact, WorldAct.isEntryOf]
    rw [hmore]
    exact List.rel_append hpolls (.cons ⟨hact, sub, hk, houtcome⟩ .nil)
  · rw [List.map_append, List.map_singleton, ← List.concat_eq_append]
    refine List.Nodup.concat (fun hk' => ?_) hnodup
    obtain ⟨res', hres', rfl⟩ := List.mem_map.mp hk'
    exact absurd (List.any_eq_false.mp hnew res' hres') (by simp)

def Recorded (w : World N) (ms : List (Move (World N) (WorldAct N))) : Prop :=
  (∀ i l, w.lists i l = subscriptions i l ms) ∧
    ∀ c call, w.subCalls[c]? = some call → SubHistory c call ms call.phase

theorem SubHistory.replace {c c' : Nat} {call' new : SubCall N}
    (hnew : SubHistory c new (ms ++ [m]) new.phase)
    (hold : w.subCalls[c']? = some call' → c' ≠ c → SubHistory c' call' (ms ++ [m]) call'.phase)
    (hc' : (w.subCalls.set c new)[c']? = some call') :
    SubHistory c' call' (ms ++ [m]) call'.phase := by
  rcases getElem?_set_cases hc' with ⟨rfl, rfl⟩ | ⟨hne, hc'⟩
  · exact hnew
  · exact hold hc' hne

theorem Recorded.step {act : WorldAct N} (h : w.step act = some v) (hw : Recorded w ms) :
    Recorded v (ms ++ [⟨w, act, v⟩]) := by
  refine ⟨fun i l => ?_, fun c call hc => ?_⟩
  · rw [World.lists_step h, hw.1, subscriptions, subscriptions, List.filterMap_append]
    congr 1
  · have hkeep : act.isEntryOf c = false → w.subCalls[c]? = some call →
        SubHistory c call (ms ++ [⟨w, act, v⟩]) call.phase :=
      fun hact hc => (hw.2 c call hc).append hact
    cases WorldMove.of_step h with
    | set => exact hkeep rfl hc
    | subscribeWith =>
      rcases getElem?_append_cases hc with ⟨rfl, rfl⟩ | hc
      · simp only
        split
        · exact .push
        · exact .subscribed
      · exact hkeep rfl hc
    | @sendSubscribe i a ty msg addr =>
      rcases getElem?_append_cases hc with ⟨rfl, rfl⟩ | hc
      · simp only
        split
        · rename_i hsome
          exact .lock hsome ⟨_, List.mem_append_right _ (List.mem_singleton.mpr rfl), rfl, rfl⟩
        · rename_i hnone
          exact .refused (Option.not_isSome_iff_eq_none.mp hnone)
      · exact hkeep rfl hc
    | push => exact SubHistory.replace .subscribed (fun hc _ => hkeep rfl hc) hc
    | @lock c₀ l call₀ ty msg hc₀ hphase hlist hfree =>
      refine SubHistory.replace (.sending ?_) (fun hc _ => hkeep rfl hc) hc
      have hasked := hw.2 c₀ call₀ hc₀
      rw [hphase] at hasked
      cases hasked with
      | lock _ hasked =>
        exact ⟨ms, _, [], l, rfl, rfl, hlist, hasked, hw.1 _ _, .nil, List.nodup_nil⟩
    | @collect c₀ call₀ subs ty msg results hc₀ hphase hall =>
      refine SubHistory.replace ?_ (fun hc _ => hkeep rfl hc) hc
      have hsending := hw.2 c₀ call₀ hc₀
      rw [hphase] at hsending
      cases hsending with
      | sending hsending => exact .sent (hsending.append rfl) hall
    | @entry c₀ k call₀ subs ty msg results sub hc₀ hphase hk hnew =>
      rw [World.setSubCall, deliver_subCalls] at hc
      refine SubHistory.replace (.sending ?_) (fun hc hne => hkeep ?_ hc) hc
      · have hsending := hw.2 c₀ call₀ hc₀
        rw [hphase] at hsending
        cases hsending with
        | sending hsending =>
          exact hsending.entry rfl hk hnew ((deliver_outcome w sub ty msg).of_sets rfl)
      · simpa [WorldAct.isEntryOf] using Ne.symm hne
    | abandon => exact SubHistory.replace .abandoned (fun hc _ => hkeep rfl hc) hc

end History

def OneGuard (w : World N) : Prop :=
  ∀ (c c' : Nat) (call call' : SubCall N), w.subCalls[c]? = some call →
    w.subCalls[c']? = some call' → call.phase.hasGuard = true → call'.phase.hasGuard = true →
    call.set = call'.set → call.list = call'.list → c = c'

section Guards
variable {w v : World N}

theorem listLocked_of_guard {c l : Nat} {call : SubCall N} (hc : w.subCalls[c]? = some call)
    (hguard : call.phase.hasGuard = true) (hlist : call.list = some l) :
    w.listLocked call.set l = true :=
  List.any_eq_true.mpr ⟨call, List.mem_of_getElem? hc, by simp [hlist, hguard]⟩

theorem World.guard_cases {act : WorldAct N} (h : w.step act = some v) {c : Nat}
    {call : SubCall N} (hc : v.subCalls[c]? = some call) (hguard : call.phase.hasGuard = true) :
    (∃ call₀ : SubCall N, w.subCalls[c]? = some call₀ ∧ call₀.phase.hasGuard = true ∧
      call₀.set = call.set ∧ call₀.list = call.list) ∨
    (act = .poll c ∧ ∃ l, call.list = some l ∧ w.listLocked call.set l = false) := by
  cases WorldMove.of_step h with
  | set => exact .inl ⟨call, hc, hguard, rfl, rfl⟩
  | subscribeWith | sendSubscribe =>
    rcases getElem?_append_cases hc with ⟨_, rfl⟩ | hc
    · simp only at hguard
      split at hguard <;> cases hguard
    · exact .inl ⟨call, hc, hguard, rfl, rfl⟩
  | push | collect | abandon =>
    rcases getElem?_set_cases hc with ⟨_, rfl⟩ | ⟨_, hc⟩
    · cases hguard
    · exact .inl ⟨call, hc, hguard, rfl, rfl⟩
  | lock hc₀ hphase hlist hfree =>
    rcases getElem?_set_cases hc with ⟨rfl, rfl⟩ | ⟨_, hc⟩
    · exact .inr ⟨rfl, _, hlist, hfree⟩
    · exact .inl ⟨call, hc, hguard, rfl, rfl⟩
  | @entry _ _ call₀ _ _ _ _ _ hc₀ hphase =>
    rw [World.setSubCall, deliver_subCalls] at hc
    rcases getElem?_set_cases hc with ⟨rfl, rfl⟩ | ⟨_, hc⟩
    · exact .inl ⟨call₀, hc₀, by rw [hphase]; rfl, rfl, rfl⟩
    · exact .inl ⟨call, hc, hguard, rfl, rfl⟩

theorem OneGuard.step {act : WorldAct N} (h : w.step act = some v) (hw : OneGuard w) :
    OneGuard v := by
  intro c c' call call' hc hc' hguard hguard' hset hlist
  rcases World.guard_cases h hc hguard with
    ⟨call₀, hc₀, hguard₀, hset₀, hlist₀⟩ | ⟨hact, l, hl, hfree⟩
  · rcases World.guard_cases h hc' hguard' with
      ⟨call₁, hc₁, hguard₁, hset₁, hlist₁⟩ | ⟨hact, l, hl, hfree⟩
    · exact hw c c' call₀ call₁ hc₀ hc₁ hguard₀ hguard₁ (by rw [hset₀, hset₁, hset])
        (by rw [hlist₀, hlist₁, hlist])
    · have hlocked := listLocked_of_guard hc₀ hguard₀ (hlist₀.trans (hlist.trans hl))
      rw [hset₀, hset, hfree] at hlocked
      cases hlocked
  · rcases World.guard_cases h hc' hguard' with
      ⟨call₁, hc₁, hguard₁, hset₁, hlist₁⟩ | ⟨hact', _⟩
    · have hlocked := listLocked_of_guard hc₁ hguard₁ (hlist₁.trans (hlist.symm.trans hl))
      rw [hset₁, ← hset, hfree] at hlocked
      cases hlocked
    · exact WorldAct.poll.inj (hact.symm.trans hact')

end Guards

section Returns
variable {v : World N} {c : Nat} {call : SubCall N} {subs : List (Subscriber N)} {ty : N.Ty}
  {msg : N.Val ty} {results : List (Nat × Option (Except ActixSendError Unit))}

theorem exists_entry {k : Nat} {sub : Subscriber N} (hc : v.subCalls[c]? = some call)
    (hphase : call.phase = .sending subs ty msg results) (hk : subs[k]? = some sub)
    (hnew : k ∉ results.map Prod.fst) :
    ∃ u res, v.step (.entry c k) = some u ∧ u.subCalls =
      v.subCalls.set c { call with phase := .sending subs ty msg (results ++ [(k, res)]) } := by
  have hany : (results.any fun res => res.1 == k) = false := by
    refine List.any_eq_false.mpr fun res hres heq => hnew ?_
    exact List.mem_map.mpr ⟨res, hres, by simpa using heq⟩
  have hstep : v.step (.entry c k) = some ((v.deliver sub ty msg).1.setSubCall c { call with
      phase := .sending subs ty msg (results ++ [(k, (v.deliver sub ty msg).2)]) }) := by
    simp only [World.step, World.pollEntry, hc, hphase, hk, hany]
    rfl
  refine ⟨_, (v.deliver sub ty msg).2, hstep, ?_⟩
  rw [World.setSubCall, deliver_subCalls]

theorem exists_sent (hc : v.subCalls[c]? = some call)
    (hphase : call.phase = .sending subs ty msg results)
    (hlt : ∀ k ∈ results.map Prod.fst, k < subs.length) (hnodup : (results.map Prod.fst).Nodup) :
    ∃ ns u res, Path World.step v ns u ∧
      u.subCalls = v.subCalls.set c { call with phase := .sent res } := by
  induction hn : subs.length - results.length generalizing v call results with
  | zero =>
    have hle := length_le_range hnodup hlt
    rw [List.length_map] at hle
    have hall : results.length = subs.length := by omega
    have hstep : v.step (.poll c) =
        some (v.setSubCall c { call with phase := .sent (results.filterMap Prod.snd) }) := by
      simp only [World.step, World.pollSub, hc, hphase, hall, if_true]
    exact ⟨_, _, _, Path.single hstep, rfl⟩
  | succ n ih =>
    have hless : (results.map Prod.fst).length < subs.length := by
      rw [List.length_map]
      omega
    obtain ⟨k, hk, hnew⟩ := exists_place hless
    obtain ⟨u, res, hstep, hcalls⟩ := exists_entry hc hphase (List.getElem?_eq_getElem hk) hnew
    have hcu : u.subCalls[c]? =
        some { call with phase := .sending subs ty msg (results ++ [(k, res)]) } := by
      rw [hcalls, getElem?_set_self_of hc]
    have hmore : (results ++ [(k, res)]).map Prod.fst = results.map Prod.fst ++ [k] := by
      rw [List.map_append, List.map_singleton]
    have hlt' : ∀ k' ∈ results.map Prod.fst ++ [k], k' < subs.length := by
      intro k' hk'
      rcases List.mem_append.mp hk' with hk' | hk'
      · exact hlt k' hk'
      · obtain rfl := List.mem_singleton.mp hk'
        exact hk
    have hnodup' : (results.map Prod.fst ++ [k]).Nodup := by
      rw [← List.concat_eq_append]
      exact List.Nodup.concat hnew hnodup
    obtain ⟨ns, u', res', hpath, hcalls'⟩ := ih hcu rfl (hmore ▸ hlt') (hmore ▸ hnodup')
      (by rw [List.length_append, List.length_singleton]; omega)
    refine ⟨_, u', res', hpath.cons hstep, ?_⟩
    rw [hcalls', hcalls, List.set_set]

theorem sending_of_hasGuard {phase : SubPhase N} (h : phase.hasGuard = true) :
    ∃ subs ty msg results, phase = .sending subs ty msg results := by
  cases phase with
  | sending subs ty msg results => exact ⟨subs, ty, msg, results, rfl⟩
  | _ => cases h

variable {ms : List (Move (World N) (WorldAct N))}

theorem Recorded.exists_sent (hrecorded : Recorded v ms) (hc : v.subCalls[c]? = some call)
    (hphase : call.phase = .sending subs ty msg results) :
    ∃ ns u res, Path World.step v ns u ∧
      u.subCalls = v.subCalls.set c { call with phase := .sent res } := by
  have hsending := hrecorded.2 c call hc
  rw [hphase] at hsending
  cases hsending with
  | sending hsending =>
    exact ActixSend.exists_sent hc hphase hsending.places.1 hsending.places.2

theorem exists_unlocked {l : Nat} (hguard : OneGuard v) (hrecorded : Recorded v ms)
    (hc : v.subCalls[c]? = some call) (hphase : call.phase = .lock ty msg) :
    ∃ ns u, Path World.step v ns u ∧ u.subCalls[c]? = some call ∧
      u.listLocked call.set l = false := by
  by_cases hlocked : v.listLocked call.set l = true
  · obtain ⟨call', hmem, hcall'⟩ := List.any_eq_true.mp hlocked
    obtain ⟨c', hc'⟩ := List.getElem?_of_mem hmem
    simp only [Bool.and_eq_true, beq_iff_eq] at hcall'
    obtain ⟨⟨hset, hlist⟩, hguard'⟩ := hcall'
    obtain ⟨subs, ty', msg', results, hsending⟩ := sending_of_hasGuard hguard'
    obtain ⟨ns, u, res, hpath, hcalls⟩ := hrecorded.exists_sent hc' hsending
    have hne : c' ≠ c := by
      rintro rfl
      obtain rfl := Option.some.inj (hc.symm.trans hc')
      rw [hphase] at hsending
      cases hsending
    refine ⟨ns, u, hpath, by rw [hcalls, List.getElem?_set_ne hne, hc], ?_⟩
    -- whoever still has the guard had it together with the call that returned
    refine Bool.eq_false_iff.mpr fun hlocked => ?_
    obtain ⟨call'', hmem, hcall''⟩ := List.any_eq_true.mp hlocked
    obtain ⟨c'', hc''⟩ := List.getElem?_of_mem hmem
    simp only [Bool.and_eq_true, beq_iff_eq] at hcall''
    obtain ⟨⟨hset', hlist'⟩, hguard''⟩ := hcall''
    rw [hcalls] at hc''
    rcases getElem?_set_cases hc'' with ⟨_, rfl⟩ | ⟨hne', hc''⟩
    · cases hguard''
    · exact hne' (hguard c'' c' call'' call' hc'' hc' hguard'' hguard' (hset'.trans hset.symm)
        (hlist'.trans hlist.symm))
  · exact ⟨[], v, .nil, hc, Bool.eq_false_iff.mpr hlocked⟩

theorem Recorded.path {u : World N} {ns : List (Move (World N) (WorldAct N))}
    (h : Path World.step v ns u) (hrecorded : Recorded v ms) : Recorded u (ms ++ ns) := by
  induction h with
  | nil => rwa [List.append_nil]
  | snoc _ hstep ih =>
    rw [← List.append_assoc]
    exact ih.step hstep

theorem exists_return (hguard : OneGuard v) (hrecorded : Recorded v ms)
    (hc : v.subCalls[c]? = some call)
    (hphase : (∃ ty msg, call.phase = .lock ty msg) ∨
      ∃ subs ty msg results, call.phase = .sending subs ty msg results) :
    ∃ ns u res, Path World.step v ns u ∧
      u.subCalls[c]? = some { call with phase := .sent res } := by
  rcases hphase with ⟨ty, msg, hphase⟩ | ⟨subs, ty, msg, results, hphase⟩
  · have hlock := hrecorded.2 c call hc
    rw [hphase] at hlock
    cases hlock with
    | lock hsome _ =>
      obtain ⟨l, hlist⟩ := Option.isSome_iff_exists.mp hsome
      obtain ⟨ns, u, hpath, hcu, hfree⟩ := exists_unlocked (l := l) hguard hrecorded hc hphase
      have hstep : u.step (.poll c) = some (u.setSubCall c { call with
          phase := .sending (u.lists call.set l) ty msg [] }) := by
        simp only [World.step, World.pollSub, hcu, hphase, hlist, hfree, Bool.false_eq_true,
          if_false]
      have hrecorded' := (hrecorded.path hpath).step hstep
      obtain ⟨ns', u', res, hpath', hcalls⟩ :=
        hrecorded'.exists_sent (getElem?_set_self_of hcu) rfl
      refine ⟨_, u', res, (hpath.snoc hstep).trans hpath', ?_⟩
      rw [hcalls]
      exact getElem?_set_self_of (getElem?_set_self_of hcu)
  · obtain ⟨ns, u, res, hpath, hcalls⟩ := hrecorded.exists_sent hc hphase
    exact ⟨ns, u, res, hpath, by rw [hcalls, getElem?_set_self_of hc]⟩

end Returns

theorem Moves.subs_cases {A : Actor} {s t : State A} {act : Act A} (h : Moves s act t)
    {addr : Address} (haddr : addr ∈ t.addresses) :
    addr.subs = none ∨ ∃ addr₀ ∈ s.addresses, addr₀.subs = addr.subs := by
  have hset : ∀ {a : Nat} {old new : Address}, addr ∈ s.addresses.set a new →
      s.addresses[a]? = some old → old.subs = new.subs →
      addr.subs = none ∨ ∃ addr₀ ∈ s.addresses, addr₀.subs = addr.subs := by
    intro a old new haddr ha hsubs
    rcases List.mem_or_eq_of_mem_set haddr with haddr | rfl
    · exact .inr ⟨addr, haddr, rfl⟩
    · exact .inr ⟨old, List.mem_of_getElem? ha, hsubs⟩
  rcases h.address_or_same with ⟨act', rfl, hmove⟩ | ⟨_, haddresses, _⟩
  · cases hmove with
    | clone ha =>
      rcases List.mem_append.mp haddr with haddr | haddr
      · exact .inr ⟨addr, haddr, rfl⟩
      · obtain rfl := List.mem_singleton.mp haddr
        exact .inr ⟨_, List.mem_of_getElem? ha, rfl⟩
    | drop ha | marker ha | lock ha | unlock ha | release ha => exact hset haddr ha rfl
    | cancel ha =>
      rw [cancelHandler_frame] at haddr
      exact hset haddr ha rfl
    | upgradeReturn =>
      rcases List.mem_append.mp haddr with haddr | haddr
      · exact .inr ⟨addr, haddr, rfl⟩
      · obtain rfl := List.mem_singleton.mp haddr
        exact .inl rfl
    | downgrade | upgradeSender | upgradeCount | upgradePanic => exact .inr ⟨addr, haddr, rfl⟩
  · exact .inr ⟨addr, haddresses ▸ haddr, rfl⟩

section Runs
variable {w v : World N}

theorem OneList.step {act : WorldAct N} (h : w.step act = some v) (hw : OneList w) :
    OneList v := by
  constructor
  · intro i addr haddr l hl
    rcases World.step_cases h i with ⟨act', rfl, hstep⟩ | hsame
    · rcases (Moves.of_step hstep).subs_cases haddr with hnone | ⟨addr₀, haddr₀, hsubs⟩
      · rw [hnone] at hl
        cases hl
      · exact hw.address i addr₀ haddr₀ l (hsubs.trans hl)
    · rw [hsame.addresses] at haddr
      exact hw.address i addr haddr l hl
  · intro call hcall l hl
    have hset : ∀ {c : Nat} {old new : SubCall N}, call ∈ w.subCalls.set c new →
        w.subCalls[c]? = some old → old.list = new.list → l = 0 := by
      intro c old new hcall hc hlist
      rcases List.mem_or_eq_of_mem_set hcall with hcall | rfl
      · exact hw.call call hcall l hl
      · exact hw.call old (List.mem_of_getElem? hc) l (hlist.trans hl)
    cases WorldMove.of_step h with
    | set => exact hw.call call hcall l hl
    | subscribeWith ha | sendSubscribe ha =>
      rcases List.mem_append.mp hcall with hcall | hcall
      · exact hw.call call hcall l hl
      · obtain rfl := List.mem_singleton.mp hcall
        exact hw.address _ _ (List.mem_of_getElem? ha) l hl
    | push hc | lock hc | collect hc | abandon hc => exact hset hcall hc rfl
    | entry hc =>
      rw [World.setSubCall, deliver_subCalls] at hcall
      exact hset hcall hc rfl

theorem World.Started.oneList {cfg : Nat → Config} {build : (i : Nat) → Nat → (N.actor i).State}
    (h : w.Started cfg build) : OneList w := by
  constructor
  · intro i addr haddr l hl
    obtain ⟨wiring, heq, _⟩ := (h.sets i).exists_wiring
    rw [heq] at haddr
    obtain rfl := List.mem_singleton.mp haddr
    simp only [Address.new] at hl
    split at hl <;> cases hl
    rfl
  · intro call hcall
    rw [h.subCalls] at hcall
    cases hcall

theorem World.Started.recorded {cfg : Nat → Config}
    {build : (i : Nat) → Nat → (N.actor i).State} (h : w.Started cfg build) : Recorded w [] := by
  refine ⟨h.lists, fun c call hc => ?_⟩
  rw [h.subCalls] at hc
  cases hc

theorem World.Started.oneGuard {cfg : Nat → Config}
    {build : (i : Nat) → Nat → (N.actor i).State} (h : w.Started cfg build) : OneGuard w := by
  intro c c' call call' hc
  rw [h.subCalls] at hc
  cases hc

theorem SentToAll.of_polls {c : Nat} {subs : List (Subscriber N)} {ty : N.Ty} {msg : N.Val ty}
    {results : List (Nat × Option (Except ActixSendError Unit))}
    {ms : List (Move (World N) (WorldAct N))}
    (hpolls : Polls c subs ty msg (entryPolls c ms) results)
    (hplaces : (∀ k ∈ results.map Prod.fst, k < subs.length) ∧ (results.map Prod.fst).Nodup)
    (hall : results.length = subs.length) :
    SentToAll c subs ty msg ms (results.filterMap Prod.snd) := by
  have hperm := perm_range hplaces.2 hplaces.1 (by rw [List.length_map, hall])
  refine ⟨⟨results, hpolls, hperm, rfl⟩, length_results hperm fun res hres => ?_⟩
  obtain ⟨_, _, sub, hk, houtcome⟩ := hpolls.outcome hres
  rw [houtcome.isSome, hk, Option.any_some]

theorem subscribe_laws {cfg : Nat → Config} {build : (i : Nat) → Nat → (N.actor i).State}
    {ms : List (Move (World N) (WorldAct N))} (hstart : w.Started cfg build)
    (h : Path World.step w ms v) : SubscribeLaws ms v := by
  have hlist : OneList v := h.invariant hstart.oneList fun _ _ _ hstep hu => hu.step hstep
  have hguard : OneGuard v := h.invariant hstart.oneGuard fun _ _ _ hstep hu => hu.step hstep
  have hrecorded : Recorded v ms := hstart.recorded.path h
  refine ⟨hlist, hrecorded.1, ?_, ?_, ?_⟩
  · intro c l call res hc hl hphase
    have hsent := hrecorded.2 c call hc
    rw [hphase] at hsent
    cases hsent with
    | refused hnone =>
      rw [hnone] at hl
      cases hl
    | sent hsending hall =>
      have hplaces := hsending.places
      obtain ⟨ms₁, m, ms₂, l', rfl, hact, hl', hasked, rfl, hpolls, _⟩ := hsending
      obtain rfl := Option.some.inj (hl.symm.trans hl')
      exact ⟨ms₁, m, ms₂, _, _, rfl, hact, hasked, .of_polls hpolls hplaces hall⟩
  · exact fun m hm c hact => World.sets_of_own (h.step_eq hm) hact
  · exact fun c call hc hphase => exists_return hguard hrecorded hc hphase

theorem World.started_start (cfg : Nat → Config) (build : (i : Nat) → Nat → (N.actor i).State) :
    (World.start cfg build).Started cfg build :=
  ⟨fun _ => .start, fun _ _ => rfl, rfl⟩

end Runs

/-- The sets of `echoNetwork` with two types of messages between them. -/
def typedNetwork : Network where
  actor _ := echoActor
  Ty := Bool
  Val _ := Bool × Nat
  into _ _ msg := msg

def typedWorld : World typedNetwork :=
  .start (fun _ => { Config.default with allowSubscribe := true }) fun _ _ => ()

/-- Set 1 subscribes twice to the message's type, once through a clone, and set
2 once; set 3 subscribes to another type, and set 2 is gone before the send. -/
def subscribeActs : List (WorldAct typedNetwork) :=
  [.set 0 (.address (.clone 0)), .subscribeWith 0 0 1 0 true, .poll 0, .subscribeWith 0 1 2 0 true,
    .poll 1, .subscribeWith 0 0 3 0 false, .poll 2, .subscribeWith 0 1 1 0 true, .poll 3,
    .set 2 (.address (.drop 0)), .set 2 (.address (.release 0)),
    .sendSubscribe 0 1 true (true, 5), .poll 4, .entry 4 3, .entry 4 2, .entry 4 1, .entry 4 0,
    .poll 4]

def SubPhase.results {N : Network} : SubPhase N → Option (List (Except ActixSendError Unit))
  | .sent res => some res
  | _ => none

theorem SubPhase.eq_sent {N : Network} {phase : SubPhase N}
    {res : List (Except ActixSendError Unit)} (h : phase.results = some res) :
    phase = .sent res := by
  cases phase with
  | sent =>
    cases h
    rfl
  | _ => cases h

theorem subscribe_laws_typed : ∃ ms v, Path World.step typedWorld ms v ∧
    (∃ call : SubCall typedNetwork, v.subCalls[4]? = some call ∧
      call.phase = .sent [.ok (), .error .closed, .ok ()]) ∧ SubscribeLaws ms v := by
  obtain ⟨ms, v, hpath, _, _, hq⟩ := exists_path_of_checkedRun World.step typedWorld subscribeActs
    (fun _ _ _ => true) (fun v => v.subCalls[4]?.any fun call =>
      call.phase.results = some [.ok (), .error .closed, .ok ()]) (by decide)
  obtain ⟨call, hcall, hphase⟩ := (Option.any_eq_true _ _).mp hq
  exact ⟨ms, v, hpath, ⟨call, hcall, SubPhase.eq_sent (of_decide_eq_true hphase)⟩,
    subscribe_laws (World.started_start _ _) hpath⟩

end ActixSend
