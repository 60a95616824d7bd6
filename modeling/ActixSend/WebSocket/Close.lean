import Mathlib.Data.List.Infix
import ActixSend.WebSocket.Frames

/-! # Nothing behind a close frame

A poll of the encode stream takes the local queue and then the channel, up to
an error. A close message closes the channel's receiver, which refuses later
messages, but the loops go on: what is behind it in its own source or waits in
the other one is still encoded, and the local queue is never closed. So the
close frame is the last one exactly if nothing is queued behind it.
-/

namespace ActixSend.WebSocket

open Transition
set_option autoImplicit false

variable {C : Codec}

/-- No frame of the list stands behind a close frame. -/
def CloseLast (msgs : List Message) : Prop :=
  (msgs.filter Message.isFrame).Pairwise fun msg _ => msg.isClose = false

instance (msgs : List Message) : Decidable (CloseLast msgs) :=
  inferInstanceAs (Decidable (List.Pairwise _ _))

def Poll.bytes {ε : Type} : Poll (Option (Except ε Bytes)) → Bytes
  | .ready (some (.ok bytes)) => bytes
  | _ => []

/-- The bytes the encode stream has produced, with those it still keeps. -/
def Connection.wire (s : Connection C) : Bytes :=
  (s.polled.map Poll.bytes).flatten ++ s.writeBuf

structure EndsWithClose (s : Connection C) : Prop where
  closeLast : CloseLast (s.encoded.map Prod.fst)
  wire : s.wire = (s.encoded.map Prod.snd).flatten

/-- When the poll begins nothing that it can take waits behind a close message,
encoded before or not. -/
def PolledInOrder (m : Move (Connection C) Act) : Prop :=
  ∀ w budget, m.act = .pollEncode w budget →
    CloseLast (m.src.encoded.map Prod.fst ++
      (m.src.inner.queue ++ m.src.rx.buffer.take budget))

def CodecFails (m : Move (Connection C) Act) : Prop :=
  ∃ w budget e, m.act = .pollEncode w budget ∧
    (m.src.pollEncode w budget).2 = .ready (some (.error e))

theorem CloseLast.shorten {l l' : List Message} (h : CloseLast l') (hl : l <+: l') :
    CloseLast l :=
  List.Pairwise.sublist (hl.sublist.filter _) h

structure Encodes (s : Connection C) (enc : List (Message × Bytes)) (t : Connection C) : Prop where
  encoded : t.encoded = s.encoded ++ enc
  writeBuf : t.writeBuf = s.writeBuf ++ (enc.map Prod.snd).flatten
  polled : t.polled = s.polled

theorem Encodes.trans {s t u : Connection C} {enc enc' : List (Message × Bytes)}
    (h : Encodes s enc t) (h' : Encodes t enc' u) : Encodes s (enc ++ enc') u := by
  constructor
  · rw [h'.encoded, h.encoded, List.append_assoc]
  · rw [h'.writeBuf, h.writeBuf, List.map_append, List.flatten_append, List.append_assoc]
  · rw [h'.polled, h.polled]

theorem drain_encodes (s : Connection C) (msgs : List Message) :
    ∃ enc, Encodes s enc (s.drain msgs).1 ∧ enc.map Prod.fst <+: msgs ∧
      ((s.drain msgs).2.2 = none → enc.map Prod.fst = msgs) ∧
      (s.drain msgs).1.rx.buffer = s.rx.buffer := by
  induction msgs generalizing s with
  | nil => exact ⟨[], ⟨by simp [Connection.drain], by simp [Connection.drain], rfl⟩,
      List.prefix_refl _, fun _ => rfl, rfl⟩
  | cons msg rest ih =>
    simp only [Connection.drain]
    generalize hs₁ : (if msg.isClose = true then { s with rx := { s.rx with closed := true } }
      else s) = s₁
    have hkept : s₁.encoded = s.encoded ∧ s₁.writeBuf = s.writeBuf ∧ s₁.polled = s.polled ∧
        s₁.rx.buffer = s.rx.buffer := by
      rw [← hs₁]
      split <;> exact ⟨rfl, rfl, rfl, rfl⟩
    obtain ⟨hencoded, hwriteBuf, hpolled, hbuffer⟩ := hkept
    rcases hencode : C.encode s₁.codec msg with ⟨codec, e | bytes⟩
    · exact ⟨[], ⟨by simp [hencoded], by simp [hwriteBuf], hpolled⟩, List.nil_prefix, by simp,
        hbuffer⟩
    · obtain ⟨enc, henc, hprefix, hall, hrest⟩ := ih { s₁ with
        codec := codec
        writeBuf := s₁.writeBuf ++ bytes
        encoded := s₁.encoded ++ [(msg, bytes)] }
      have hone : Encodes s [(msg, bytes)] { s₁ with
          codec := codec
          writeBuf := s₁.writeBuf ++ bytes
          encoded := s₁.encoded ++ [(msg, bytes)] } :=
        ⟨by simp [hencoded], by simp [hwriteBuf], hpolled⟩
      refine ⟨[(msg, bytes)] ++ enc, hone.trans henc, ?_, ?_, hrest.trans hbuffer⟩
      · simpa using hprefix
      · intro hnone
        simp [hall hnone]

theorem drainQueue_encodes {s t : Connection C} {err : Option C.Error}
    (h : s.drainQueue = (t, err)) :
    ∃ enc, Encodes s enc t ∧ enc.map Prod.fst <+: s.inner.queue ∧
      (err = none → enc.map Prod.fst = s.inner.queue) ∧ t.rx.buffer = s.rx.buffer := by
  obtain ⟨enc, henc, hdrain⟩ := drain_encodes s s.inner.queue
  cases h
  exact ⟨enc, ⟨henc.encoded, henc.writeBuf, henc.polled⟩, hdrain⟩

theorem drainChannel_encodes {s t : Connection C} {budget : Nat} {err : Option C.Error}
    (h : s.drainChannel budget = (t, err)) :
    ∃ enc, Encodes s enc t ∧ enc.map Prod.fst <+: s.rx.buffer.take budget ∧
      (err = none → enc.map Prod.fst = s.rx.buffer.take budget) := by
  obtain ⟨enc, henc, hprefix, hall, _⟩ := drain_encodes s (s.rx.buffer.take budget)
  cases h
  exact ⟨enc, ⟨henc.encoded, henc.writeBuf, henc.polled⟩, hprefix, hall⟩

theorem register_encodes (s : Connection C) (w : Nat) :
    Encodes s [] (s.register w) ∧ (s.register w).rx.buffer = s.rx.buffer := by
  simp only [Connection.register]
  split <;> exact ⟨⟨by simp, by simp, rfl⟩, rfl⟩

theorem pause_bytes (s : Connection C) : s.pause.2.bytes ++ s.pause.1.writeBuf = s.writeBuf ∧
    s.pause.1.encoded = s.encoded ∧ s.pause.1.polled = s.polled := by
  simp only [Connection.pause]
  split <;> simp [Poll.bytes]

theorem flush_bytes (s : Connection C) (w : Nat) (spent : Bool) :
    (s.flush w spent).2.bytes ++ (s.flush w spent).1.writeBuf = s.writeBuf ∧
      (s.flush w spent).1.encoded = s.encoded ∧ (s.flush w spent).1.polled = s.polled := by
  simp only [Connection.flush]
  split
  · exact pause_bytes { s with wakes := s.wakes ++ [w] }
  · split
    · split <;> simp [Poll.bytes]
    · exact pause_bytes { s with rx := { s.rx with waker := some w } }

/-- A poll encodes what waits in the queue and then what the budget lets it take
of the channel, all of it unless the codec fails, and hands on or keeps the bytes. -/
theorem pollEncode_encodes {s t : Connection C} {w budget : Nat}
    {polled : Poll (Option (Except C.Error Bytes))} (h : s.pollEncode w budget = (t, polled)) :
    ∃ enc : List (Message × Bytes), t.encoded = s.encoded ++ enc ∧
      polled.bytes ++ t.writeBuf = s.writeBuf ++ (enc.map Prod.snd).flatten ∧
      t.polled = s.polled ∧ enc.map Prod.fst <+: s.inner.queue ++ s.rx.buffer.take budget ∧
      ((∀ e, polled ≠ .ready (some (.error e))) →
        enc.map Prod.fst = s.inner.queue ++ s.rx.buffer.take budget) := by
  cases EncodeMove.of_poll h with
  | @queueError _ e hqueue =>
    obtain ⟨enc, henc, hprefix, _⟩ := drainQueue_encodes hqueue
    exact ⟨enc, henc.encoded, henc.writeBuf, henc.polled,
      hprefix.trans (List.prefix_append _ _), fun hok => absurd rfl (hok e)⟩
  | @channelError s₁ _ e hqueue hchannel =>
    obtain ⟨enc, henc, _, hall, hbuffer⟩ := drainQueue_encodes hqueue
    obtain ⟨hregister, hbuffer'⟩ := register_encodes s₁ w
    obtain ⟨enc', henc', hprefix, _⟩ := drainChannel_encodes hchannel
    have hwhole := (henc.trans hregister).trans henc'
    rw [List.append_nil] at hwhole
    refine ⟨enc ++ enc', hwhole.encoded, hwhole.writeBuf, hwhole.polled, ?_,
      fun hok => absurd rfl (hok e)⟩
    rw [List.map_append, hall rfl, ← hbuffer, ← hbuffer']
    exact (List.prefix_append_right_inj _).mpr hprefix
  | @flushed s₁ s₂ _ _ hqueue hchannel hflush =>
    obtain ⟨enc, henc, _, hall, hbuffer⟩ := drainQueue_encodes hqueue
    obtain ⟨hregister, hbuffer'⟩ := register_encodes s₁ w
    obtain ⟨enc', henc', _, hall'⟩ := drainChannel_encodes hchannel
    have hwhole := (henc.trans hregister).trans henc'
    rw [List.append_nil] at hwhole
    obtain ⟨hbytes, hencoded, hpolled⟩ := flush_bytes s₂ w (s.spends budget)
    rw [hflush] at hbytes hencoded hpolled
    have hsame : (enc ++ enc').map Prod.fst = s.inner.queue ++ s.rx.buffer.take budget := by
      rw [List.map_append, hall rfl, hall' rfl, hbuffer', hbuffer]
    refine ⟨enc ++ enc', hencoded.trans hwhole.encoded, hbytes.trans hwhole.writeBuf,
      hpolled.trans hwhole.polled, ?_, fun _ => hsame⟩
    rw [hsame]

theorem Encodes.same {s t : Connection C} (hencoded : t.encoded = s.encoded)
    (hwriteBuf : t.writeBuf = s.writeBuf) (hpolled : t.polled = s.polled) : Encodes s [] t :=
  ⟨by simp [hencoded], by simp [hwriteBuf], hpolled⟩

theorem step_encodes {s t : Connection C} {act : Act} (h : step s act = some t)
    (hact : ∀ w budget, act ≠ .pollEncode w budget) : Encodes s [] t := by
  cases ConnectionMove.of_step h with
  | pollEncode w budget => exact absurd rfl (hact w budget)
  | tick _ _ htick =>
    rw [htick]
    exact .same rfl rfl rfl
  | _ => exact .same rfl rfl rfl

theorem wire_step {s t : Connection C} {act : Act} (h : step s act = some t)
    (hs : s.wire = (s.encoded.map Prod.snd).flatten) :
    t.wire = (t.encoded.map Prod.snd).flatten := by
  by_cases hact : ∃ w budget, act = .pollEncode w budget
  · obtain ⟨w, budget, rfl⟩ := hact
    rcases hpoll : s.pollEncode w budget with ⟨u, polled⟩
    obtain ⟨enc, hencoded, hbytes, hpolled, _⟩ := pollEncode_encodes hpoll
    simp only [step, hpoll] at h
    cases h
    simp only [Connection.wire] at hs ⊢
    simp only [hencoded, hpolled, List.map_append, List.flatten_append]
    rw [← hs]
    simp [hbytes]
  · have hsame := step_encodes h fun w budget heq => hact ⟨w, budget, heq⟩
    simpa [Connection.wire, hsame.encoded, hsame.writeBuf, hsame.polled] using hs

section Runs
variable {cfg : WsConfig C} {now now' : Nat} {t : Connection C}
  {ms : List (Move (Connection C) Act)}

theorem encoded_grows {s : Connection C} (h : Path step s ms t) : s.encoded <+: t.encoded := by
  apply h.invariant (I := fun u => s.encoded <+: u.encoded) (List.prefix_refl _)
  intro u act v hstep hu
  refine hu.trans ?_
  by_cases hact : ∃ w budget, act = .pollEncode w budget
  · obtain ⟨w, budget, rfl⟩ := hact
    rcases hpoll : u.pollEncode w budget with ⟨u', polled⟩
    obtain ⟨enc, hencoded, _⟩ := pollEncode_encodes hpoll
    simp only [step, hpoll] at hstep
    cases hstep
    exact ⟨enc, hencoded.symm⟩
  · have hsame := step_encodes hstep fun w budget heq => hact ⟨w, budget, heq⟩
    rw [hsame.encoded, List.append_nil]

theorem wire_of_path (h : Path step (splitStream cfg now now') ms t) :
    t.wire = (t.encoded.map Prod.snd).flatten :=
  h.invariant (I := fun u => u.wire = (u.encoded.map Prod.snd).flatten) rfl
    fun _ _ _ hstep hu => wire_step hstep hu

/-- The close frame is the last one if every poll finds nothing behind it, and
in a run without codec errors only then. -/
theorem ends_with_close_iff (h : Path step (splitStream cfg now now') ms t) :
    ((∀ m ∈ ms, PolledInOrder m) → EndsWithClose t) ∧
      ((∀ m ∈ ms, ¬CodecFails m) → EndsWithClose t → ∀ m ∈ ms, PolledInOrder m) := by
  constructor
  · intro hms
    refine ⟨?_, wire_of_path h⟩
    apply h.invariant_of (I := fun u => CloseLast (u.encoded.map Prod.fst)) hms
    · exact List.Pairwise.nil
    · intro u act v horder hstep hu
      by_cases hact : ∃ w budget, act = .pollEncode w budget
      · obtain ⟨w, budget, rfl⟩ := hact
        rcases hpoll : u.pollEncode w budget with ⟨u', polled⟩
        obtain ⟨enc, hencoded, _, _, hprefix, _⟩ := pollEncode_encodes hpoll
        simp only [step, hpoll] at hstep
        cases hstep
        apply (horder w budget rfl).shorten
        dsimp only
        rw [hencoded, List.map_append]
        exact (List.prefix_append_right_inj _).mpr hprefix
      · have hsame := step_encodes hstep fun w budget heq => hact ⟨w, budget, heq⟩
        rwa [hsame.encoded, List.append_nil]
  · intro hcodec hend m hm w budget hact
    obtain ⟨ps, qs, rfl, hps, hstep, hqs⟩ := h.exists_split hm
    rw [hact] at hstep
    rcases hpoll : m.src.pollEncode w budget with ⟨u, polled⟩
    obtain ⟨enc, hencoded, _, _, _, hall⟩ := pollEncode_encodes hpoll
    have hok : ∀ e, polled ≠ .ready (some (.error e)) := by
      rintro e rfl
      exact hcodec m hm ⟨w, budget, e, hact, by rw [hpoll]⟩
    have hdst : m.dst.encoded = u.encoded := by
      simp only [step, hpoll, Option.some.injEq] at hstep
      rw [← hstep]
    have hprefix := (encoded_grows hqs).map Prod.fst
    rw [hdst, hencoded, List.map_append, hall hok] at hprefix
    exact hend.closeLast.shorten hprefix

theorem close_after_text_ends : ∃ ms t,
    Path step (splitStream (WsConfig.default shortCodec) 0 0) ms t ∧
      t.wire = [0x81, 0x01, 0x61, 0x88, 0x00] ∧ EndsWithClose t := by
  obtain ⟨ms, t, h, hacts, hms, ht⟩ := exists_path_of_checkedRun step
    (splitStream (WsConfig.default shortCodec) 0 0)
    [.push (.text "a"), .push (.close none), .pollEncode 0 128]
    (fun s act _ => act matches .push _ ||
      (s.encoded.isEmpty && decide (s.inner.queue = [.text "a", .close none]) &&
        s.rx.buffer.isEmpty))
    (fun t => decide (t.wire = [0x81, 0x01, 0x61, 0x88, 0x00])) (by decide)
  refine ⟨ms, t, h, of_decide_eq_true ht, (ends_with_close_iff h).1 ?_⟩
  intro m hm w budget hact
  have hp := hms m hm
  simp only [hact, Bool.false_or, Bool.and_eq_true, List.isEmpty_iff, decide_eq_true_eq] at hp
  rw [hp.1.1, hp.1.2, hp.2, List.take_nil]
  decide

/-- A text message pushed behind a close message goes out after it. -/
theorem text_follows_close : ¬∀ ms t,
    Path step (splitStream (WsConfig.default shortCodec) 0 0) ms t → EndsWithClose t := by
  intro hall
  obtain ⟨ms, t, h, _, _, ht⟩ := exists_path_of_checkedRun step
    (splitStream (WsConfig.default shortCodec) 0 0)
    [.push (.close none), .push (.text "a"), .pollEncode 0 128]
    (fun _ _ _ => true)
    (fun t => decide (t.encoded.map Prod.fst = [.close none, .text "a"])) (by decide)
  have hlast := (hall ms t h).closeLast
  rw [of_decide_eq_true ht] at hlast
  exact absurd hlast (by decide)

end Runs

end ActixSend.WebSocket
