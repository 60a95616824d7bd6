import ActixSend.Holder

/-! # What becomes of a request

A request's future is polled, given up or answered, and none of these makes
another request of it.
-/

namespace ActixSend

open Transition
set_option autoImplicit false

variable {A : Actor}

inductive CallTurn (s t : State A) (act : Act A) (tx : Nat) (call : Call A) : Call A → Prop
  | keep : CallTurn s t act tx call call
  | refuse (hphase : call.phase = .sending) :
      CallTurn s t act tx call { call with phase := .done (.err .closed) }
  | send (hphase : call.phase = .sending)
      (hsends : t.accepted = s.accepted ++
        [(call.req.channel, ⟨s.nextId, call.req.message tx⟩)]) :
      CallTurn s t act tx call
        { call with phase := if call.req.awaitsReply then .waiting none else .done (.ok .unit) }
  | timeout (hphase : call.phase = .sending) :
      CallTurn s t act tx call { call with phase := .done (.err .timeout) }
  | answered {i : Nat} {reply : Reply A} (hphase : call.phase = .waiting none)
      (hanswers : Answers s t i tx reply) :
      CallTurn s t act tx call { call with phase := .waiting (some reply) }
  | receive {reply : Reply A} (hact : act = .request (.receive tx))
      (hphase : call.phase = .waiting (some reply)) :
      CallTurn s t act tx call { call with phase := .done (call.req.answer reply) }
  | canceled (hphase : call.phase = .waiting none) (hheld : s.oneShotSender tx = false) :
      CallTurn s t act tx call { call with phase := .done (.err .canceled) }
  | abandon : CallTurn s t act tx call { call with phase := .abandoned }

inductive CallOrigin (s t : State A) (act : Act A) (tx : Nat) (call' : Call A) : Prop
  | old {call : Call A} (hcall : s.calls[tx]? = some call)
      (hturn : CallTurn s t act tx call call')
  | new (hlen : s.calls.length ≤ tx) (hphase : call'.phase = .sending)
  | item (hlen : s.calls.length ≤ tx) (hitem : call'.IsItem)
      (hphase : call'.phase = .waiting none ∨ call'.phase = .done (.err .closed))

theorem callOrigin_append {s t : State A} {act : Act A} {new : List (Call A)} {tx : Nat}
    {call' : Call A} (hset : t.calls = s.calls ++ new) (h : t.calls[tx]? = some call')
    (hnew : ∀ x ∈ new, x.phase = .sending ∨
      x.IsItem ∧ (x.phase = .waiting none ∨ x.phase = .done (.err .closed))) :
    CallOrigin s t act tx call' := by
  rw [hset] at h
  rcases Nat.lt_or_ge tx s.calls.length with hlt | hge
  · rw [List.getElem?_append_left hlt] at h
    exact .old h .keep
  · rw [List.getElem?_append_right hge] at h
    rcases hnew _ (List.mem_of_getElem? h) with hphase | ⟨hitem, hphase⟩
    · exact .new hge hphase
    · exact .item hge hitem hphase

theorem callOrigin_set {s t : State A} {act : Act A} {c tx : Nat} {call call' new : Call A}
    (hc : s.calls[c]? = some call) (hset : t.calls = s.calls.set c new)
    (h : t.calls[tx]? = some call') (hturn : CallTurn s t act c call new) :
    CallOrigin s t act tx call' := by
  rw [hset] at h
  rcases getElem?_set_cases h with ⟨rfl, rfl⟩ | ⟨_, h⟩
  · exact .old hc hturn
  · exact .old h .keep

theorem RequestMove.callOrigin {s t : State A} {ract : RequestAct A} (h : RequestMove s ract t)
    {tx : Nat} {call' : Call A} (hcall' : t.calls[tx]? = some call') :
    CallOrigin s t (.request ract) tx call' := by
  cases h with
  | call =>
    apply callOrigin_append rfl hcall'
    intro x hx
    obtain rfl := List.mem_singleton.mp hx
    exact .inl rfl
  | broadcast =>
    apply callOrigin_append rfl hcall'
    intro x hx
    obtain ⟨_, _, rfl⟩ := List.mem_map.mp hx
    exact .inl rfl
  | item =>
    refine callOrigin_append (s := s) rfl hcall' ?_
    intro x hx
    obtain rfl := List.mem_singleton.mp hx
    exact .inr ⟨⟨⟨_, _, rfl⟩, nofun⟩, .inl rfl⟩
  | itemRefused =>
    apply callOrigin_append rfl hcall'
    intro x hx
    obtain rfl := List.mem_singleton.mp hx
    exact .inr ⟨⟨⟨_, _, rfl⟩, nofun⟩, .inr rfl⟩
  | refuse hc hphase => exact callOrigin_set hc rfl hcall' (.refuse hphase)
  | send hc hphase => exact callOrigin_set hc rfl hcall' (.send hphase rfl)
  | timeout hc hphase => exact callOrigin_set hc rfl hcall' (.timeout hphase)
  | @answer c call reply hc hphase =>
    exact callOrigin_set hc (resumeStream_calls _ _) hcall' (.receive rfl hphase)
  | canceled hc hphase hheld =>
    exact callOrigin_set hc (resumeStream_calls _ _) hcall' (.canceled hphase hheld)
  | abandon hc | dropWaiting _ hc => exact callOrigin_set hc rfl hcall' .abandon
  | cancel =>
    rw [cancelHandler_frame] at hcall'
    exact .old hcall' .keep
  | doSend | doRun | stream | dropIdle => exact .old hcall' .keep

theorem Moves.callOrigin {s t : State A} {act : Act A} (h : Moves s act t) {tx : Nat}
    {call' : Call A} (hcall' : t.calls[tx]? = some call') : CallOrigin s t act tx call' := by
  rcases h.calls_cases with ⟨_, rfl, hreq⟩ | ⟨_, hsame | ⟨_, _, _, hanswers⟩⟩
  · exact hreq.callOrigin hcall'
  · rw [hsame] at hcall'
    exact .old hcall' .keep
  · obtain ⟨call, hc, hphase, hset⟩ := hanswers.waiting
    exact callOrigin_set hc hset hcall' (.answered hphase hanswers)

end ActixSend
