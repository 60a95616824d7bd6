import Mathlib.Data.List.TakeWhile
import ActixSend.Transition.Framing
import ActixSend.WebSocket.Frames

/-! # Chunks of the incoming bytes

However the incoming bytes are cut and whenever they arrive, the decode stream
yields one item for each frame of the whole sequence, up to the first error of
the codec. What the codec's crate is relied on for is `Framed`: a frame is taken
off the front whatever follows it, and a part of one is left alone.
-/

namespace ActixSend.WebSocket

open Transition
set_option autoImplicit false

variable {C : Codec}

/-- The item of a frame; a text that is not UTF-8 makes an error. -/
def frameItem : Frame → Except (ProtocolError C) Message
  | .text data =>
    match String.fromUTF8? ⟨data.toArray⟩ with
    | some text => .ok (.text text)
    | none => .error (.utf8 data)
  | .binary data => .ok (.binary data)
  | .ping data => .ok (.ping data)
  | .pong data => .ok (.pong data)
  | .close reason => .ok (.close reason)
  | .continuation item => .ok (.continuation item)

def Codec.items (C : Codec) (codec : C.State) (bytes : Bytes) :
    List (Except (ProtocolError C) Message) :=
  (framesOf C.decode codec bytes).map frameItem

def isCodecError : Except (ProtocolError C) Message → Bool
  | .error (.codec _) => true
  | _ => false

def bytesOf : List Incoming → Bytes
  | [] => []
  | .chunk data :: rest => data ++ bytesOf rest
  | .err _ :: rest => bytesOf rest
  | .done :: rest => bytesOf rest

def Act.incoming? : Act → Option Incoming
  | .arrive incoming => some incoming
  | _ => none

def arrivals (ms : List (Move (Connection C) Act)) : List Incoming :=
  (ms.map Move.act).filterMap Act.incoming?

/-- The run receives the bytes in chunks, and then perhaps the end of the inner stream. -/
def Cuts (ms : List (Move (Connection C) Act)) (bytes : Bytes) : Prop :=
  ∃ chunks : List Bytes, chunks.flatten = bytes ∧
    (arrivals ms = chunks.map .chunk ∨ arrivals ms = chunks.map .chunk ++ [.done])

def Poll.item? {α : Type} : Poll (Option α) → Option α
  | .ready (some a) => some a
  | _ => none

def Connection.items (s : Connection C) : List (Except (ProtocolError C) Message) :=
  s.yielded.filterMap fun y => y.2.item?

def untilError (items : List (Except (ProtocolError C) Message)) :
    List (Except (ProtocolError C) Message) :=
  items.takeWhile fun item => !isCodecError item

/-- The move is a poll of the decode stream that answers `Pending` or `None`. -/
def DecodeRests (m : Move (Connection C) Act) : Prop :=
  ∃ w now now', m.act = .pollDecode w now now' ∧
    (m.dst.yielded.getLast? = some (w, .pending) ∨ m.dst.yielded.getLast? = some (w, .ready none))

namespace DecodeStream

/-- The items of what was read and not decoded yet, followed by `more`. -/
def ahead (d : DecodeStream C) (more : Bytes) : List (Except (ProtocolError C) Message) :=
  C.items d.codec (d.readBuf ++ more)

theorem toMessage_item (d : DecodeStream C) (now : Nat) (frame : Frame) :
    (d.toMessage now frame).2 = frameItem frame ∧
      (d.toMessage now frame).1.codec = d.codec ∧
      (d.toMessage now frame).1.readBuf = d.readBuf := by
  cases frame with
  | text data =>
    simp only [toMessage, frameItem]
    cases String.fromUTF8? ⟨data.toArray⟩ <;> exact ⟨rfl, rfl, rfl⟩
  | binary data | ping data | pong data | close reason | continuation item =>
    exact ⟨rfl, rfl, rfl⟩

inductive Reads (d : DecodeStream C) (taken : List Incoming) (d' : DecodeStream C) :
    Poll (Option (Except (ProtocolError C) Message)) → Prop
  | frame (item : Except (ProtocolError C) Message) (clean : isCodecError item = false)
      (ahead : ∀ more, d.ahead (bytesOf taken ++ more) = item :: d'.ahead more) :
      Reads d taken d' (.ready (some item))
  | rejected (e : C.Error) (ahead : ∀ more, d.ahead (bytesOf taken ++ more) = []) :
      Reads d taken d' (.ready (some (.error (.codec e))))
  | broken (text : String) (mem : .err text ∈ taken) :
      Reads d taken d' (.ready (some (.error (.stream text))))
  | rests (answer : Poll (Option (Except (ProtocolError C) Message)))
      (rest : answer = .pending ∨ answer = .ready none)
      (stream : d'.stream = [] ∨ ∃ before, taken = before ++ [.done])
      (ahead : ∀ more, d.ahead (bytesOf taken ++ more) = d'.ahead more) (dry : d'.ahead [] = []) :
      Reads d taken d' answer

theorem Reads.chunk {d d₁ d' : DecodeStream C} {data : Bytes} {taken : List Incoming}
    {answer : Poll (Option (Except (ProtocolError C) Message))}
    (hd : ∀ more, d.ahead (data ++ more) = d₁.ahead more) (h : Reads d₁ taken d' answer) :
    Reads d (.chunk data :: taken) d' answer := by
  have hahead : ∀ more, d.ahead (bytesOf (.chunk data :: taken) ++ more) =
      d₁.ahead (bytesOf taken ++ more) := by
    intro more
    rw [← hd, bytesOf, List.append_assoc]
  cases h with
  | frame item clean ahead => exact .frame item clean fun more => (hahead more).trans (ahead more)
  | rejected e ahead => exact .rejected e fun more => (hahead more).trans (ahead more)
  | broken text mem => exact .broken text (List.mem_cons_of_mem _ mem)
  | rests answer rest stream ahead dry =>
    refine .rests answer rest ?_ (fun more => (hahead more).trans (ahead more)) dry
    rcases stream with hnil | ⟨before, rfl⟩
    · exact .inl hnil
    · exact .inr ⟨.chunk data :: before, rfl⟩

end DecodeStream

/-- The decode stream may be dropped and its timer may fire. -/
structure SameItems (s t : Connection C) : Prop where
  decode : ∀ d', t.decode = some d' → ∃ d timer, s.decode = some d ∧ d' = { d with timer := timer }
  yielded : t.yielded = s.yielded

theorem SameItems.same {s t : Connection C} (hdecode : t.decode = s.decode)
    (hyielded : t.yielded = s.yielded) : SameItems s t :=
  ⟨fun d' hd => ⟨d', d'.timer, hdecode ▸ hd, rfl⟩, hyielded⟩

theorem step_sameItems {s t : Connection C} {act : Act} (h : step s act = some t)
    (harrive : ∀ incoming, act ≠ .arrive incoming)
    (hpoll : ∀ w now now', act ≠ .pollDecode w now now') : SameItems s t := by
  cases ConnectionMove.of_step h with
  | arrive incoming => exact absurd rfl (harrive incoming)
  | pollDecode w | pollDecodePush w => exact absurd rfl (hpoll w _ _)
  | dropStream => exact ⟨nofun, rfl⟩
  | tick _ _ htick => exact ⟨fun d' hd => tick_decode hd, by rw [htick]⟩
  | pollEncode w budget =>
    have hsame := pollEncode_sameReader s w budget
    exact .same hsame.decode hsame.yielded
  | _ => exact .same rfl rfl

theorem bytesOf_append (l l' : List Incoming) : bytesOf (l ++ l') = bytesOf l ++ bytesOf l' := by
  induction l with
  | nil => rfl
  | cons i l ih =>
    cases i with
    | chunk data => simp only [List.cons_append, bytesOf, ih, List.append_assoc]
    | err text => exact ih
    | done => exact ih

theorem bytesOf_chunks (chunks : List Bytes) : bytesOf (chunks.map .chunk) = chunks.flatten := by
  induction chunks with
  | nil => rfl
  | cons chunk chunks ih => rw [List.map_cons, bytesOf, ih, List.flatten_cons]

theorem untilError_append {items : List (Except (ProtocolError C) Message)}
    (h : ∃ item ∈ items, isCodecError item = true)
    (rest : List (Except (ProtocolError C) Message)) :
    untilError (items ++ rest) = untilError items := by
  obtain ⟨item, hitem, herror⟩ := h
  induction items with
  | nil => cases hitem
  | cons item' items ih =>
    simp only [untilError, List.cons_append, List.takeWhile_cons] at ih ⊢
    split
    · rename_i hclean
      rcases List.mem_cons.mp hitem with rfl | hitem
      · simp [herror] at hclean
      · rw [ih hitem]
    · rfl

theorem untilError_snoc {items : List (Except (ProtocolError C) Message)}
    {last : Except (ProtocolError C) Message} (h : ∀ item ∈ items, isCodecError item = false)
    (hlast : isCodecError last = true) : untilError (items ++ [last]) = items := by
  rw [untilError, List.takeWhile_append_of_pos fun item hitem => by simp [h item hitem]]
  simp [hlast]

structure Decoded (init : C.State) (arrived : List Incoming) (s : Connection C)
    (d : DecodeStream C) : Prop where
  stream : ∃ taken, arrived = taken ++ d.stream
  items : ((∀ item ∈ s.items, isCodecError item = false) ∧
      ∀ more, C.items init (bytesOf arrived ++ more) =
        s.items ++ d.ahead (bytesOf d.stream ++ more)) ∨
    (∃ item ∈ s.items, isCodecError item = true) ∧
      ∀ more, C.items init (bytesOf arrived ++ more) = untilError s.items

variable {init : C.State} {arrived : List Incoming} {s t : Connection C} {d d' : DecodeStream C}

theorem Decoded.arrive (h : Decoded init arrived s d) (incoming : Incoming) :
    Decoded init (arrived ++ [incoming]) { s with
      decode := some { d with stream := d.stream ++ [incoming] } }
      { d with stream := d.stream ++ [incoming] } := by
  obtain ⟨taken, htaken⟩ := h.stream
  constructor
  · exact ⟨taken, by rw [htaken, List.append_assoc]⟩
  · rcases h.items with ⟨hclean, hahead⟩ | ⟨herror, hahead⟩
    · refine .inl ⟨hclean, fun more => ?_⟩
      dsimp only
      rw [bytesOf_append, bytesOf_append, List.append_assoc, List.append_assoc, hahead]
      rfl
    · refine .inr ⟨herror, fun more => ?_⟩
      rw [bytesOf_append, List.append_assoc]
      exact hahead _

theorem items_snoc (s : Connection C) (w : Nat)
    (answer : Poll (Option (Except (ProtocolError C) Message))) (clock : Nat) :
    Connection.items { s with clock := clock, yielded := s.yielded ++ [(w, answer)] } =
      s.items ++ answer.item?.toList := by
  simp only [Connection.items, List.filterMap_append]
  cases hitem : answer.item? <;> simp [hitem]

theorem Decoded.poll (hnoerr : ∀ text, .err text ∉ arrived) (h : Decoded init arrived s d)
    {taken : List Incoming} {answer : Poll (Option (Except (ProtocolError C) Message))}
    (hstream : d.stream = taken ++ d'.stream) (hreads : DecodeStream.Reads d taken d' answer)
    (hitems : t.items = s.items ++ answer.item?.toList) : Decoded init arrived t d' := by
  obtain ⟨before, hbefore⟩ := h.stream
  have harrived : arrived = before ++ taken ++ d'.stream := by
    rw [hbefore, hstream, List.append_assoc]
  refine ⟨⟨before ++ taken, harrived⟩, ?_⟩
  rcases h.items with ⟨hclean, hahead⟩ | ⟨herror, hahead⟩
  · have hsplit : ∀ more, C.items init (bytesOf arrived ++ more) =
        s.items ++ d.ahead (bytesOf taken ++ (bytesOf d'.stream ++ more)) := by
      intro more
      rw [hahead, hstream, bytesOf_append, List.append_assoc]
    cases hreads with
    | frame item clean ahead =>
      refine .inl ⟨?_, fun more => ?_⟩
      · intro item' hitem'
        rw [hitems] at hitem'
        rcases List.mem_append.mp hitem' with hitem' | hitem'
        · exact hclean item' hitem'
        · obtain rfl := List.mem_singleton.mp hitem'
          exact clean
      · rw [hsplit, ahead, hitems]
        simp [Poll.item?]
    | rejected e ahead =>
      have hlast : t.items = s.items ++ [.error (.codec e)] := hitems
      refine .inr ⟨⟨.error (.codec e), ?_, rfl⟩, fun more => ?_⟩
      · rw [hlast]
        exact List.mem_concat_self
      · rw [hsplit, ahead, List.append_nil, hlast, untilError_snoc hclean rfl]
    | broken text mem =>
      have hmem : .err text ∈ arrived := by
        rw [harrived]
        exact List.mem_append_left _ (List.mem_append_right _ mem)
      exact absurd hmem (hnoerr text)
    | rests _ rest stream ahead dry =>
      have hsame : t.items = s.items := by
        rcases rest with rfl | rfl
        · exact hitems.trans (List.append_nil _)
        · exact hitems.trans (List.append_nil _)
      refine .inl ⟨hsame ▸ hclean, fun more => ?_⟩
      rw [hsplit, ahead, hsame]
  · refine .inr ⟨?_, fun more => ?_⟩
    · obtain ⟨item, hitem, hcodec⟩ := herror
      rw [hitems]
      exact ⟨item, List.mem_append_left _ hitem, hcodec⟩
    · rw [hitems, untilError_append herror]
      exact hahead more

def unmask (key : Bytes) (data : Bytes) : Bytes :=
  data.mapIdx fun i b => b ^^^ key.getD (i % 4) 0

def frameOfOpcode (head : UInt8) (payload : Bytes) : Option Frame :=
  if head = 0x81 then some (.text payload)
  else if head = 0x82 then some (.binary payload)
  else if head = 0x89 then some (.ping payload)
  else if head = 0x8A then some (.pong payload)
  else none

def decodeMasked : Bytes → Bytes × Except Unit (Option Frame)
  | head :: len :: k₀ :: k₁ :: k₂ :: k₃ :: data =>
    if data.length < (len &&& 0x7F).toNat then
      (head :: len :: k₀ :: k₁ :: k₂ :: k₃ :: data, .ok none)
    else
      match frameOfOpcode head (unmask [k₀, k₁, k₂, k₃] (data.take (len &&& 0x7F).toNat)) with
      | some frame => (data.drop (len &&& 0x7F).toNat, .ok (some frame))
      | none => (data, .error ())
  | buf => (buf, .ok none)

/-- A server's codec for incoming frames with a short payload. -/
def maskedCodec : Codec where
  State := Unit
  Error := Unit
  new := ()
  encode := shortCodec.encode
  decode s buf := (s, decodeMasked buf)

theorem decodeMasked_part (q data : Bytes) (head len k₀ k₁ k₂ k₃ : UInt8)
    (hdata : data.length = (len &&& 0x7F).toNat)
    (hq : q <+: head :: len :: k₀ :: k₁ :: k₂ :: k₃ :: data)
    (hne : q ≠ head :: len :: k₀ :: k₁ :: k₂ :: k₃ :: data) :
    decodeMasked q = (q, .ok none) := by
  unfold decodeMasked
  split
  · rename_i head' len' k₀' k₁' k₂' k₃' data'
    simp only [List.cons_prefix_cons] at hq
    obtain ⟨rfl, rfl, rfl, rfl, rfl, rfl, hq⟩ := hq
    have hlt : data'.length < (len' &&& 0x7F).toNat := by
      rw [← hdata]
      have hle := hq.length_le
      have : data'.length ≠ data.length := fun heq => hne (by rw [hq.eq_of_length heq])
      omega
    rw [if_pos hlt]
  · rfl

section Runs
variable {cfg cfg' : WsConfig C} {now now' : Nat} {t t' : Connection C}
  {ms ms' : List (Move (Connection C) Act)} {m m' : Move (Connection C) Act} {bytes : Bytes}

theorem arrivals_append (ms ms' : List (Move (Connection C) Act)) :
    arrivals (ms ++ ms') = arrivals ms ++ arrivals ms' := by
  rw [arrivals, List.map_append, List.filterMap_append]
  rfl

theorem arrivals_snoc (ms : List (Move (Connection C) Act)) (m : Move (Connection C) Act)
    (hm : ∀ incoming, m.act ≠ .arrive incoming) : arrivals (ms ++ [m]) = arrivals ms := by
  have hnone : arrivals [m] = [] := by
    obtain ⟨src, act, dst⟩ := m
    cases act with
    | arrive incoming => exact absurd rfl (hm incoming)
    | _ => rfl
  rw [arrivals_append, hnone, List.append_nil]

theorem pollDecode_step {s u : Connection C} {w now now' : Nat}
    (h : step s (.pollDecode w now now') = some u) : ∃ d t answer, s.decode = some d ∧
      s.pollDecode d w now now' = (t, answer) ∧
      u = { t with clock := now', yielded := t.yielded ++ [(w, answer)] } := by
  simp only [step] at h
  split at h
  · rename_i d hd
    split at h
    · cases h
      exact ⟨d, _, _, hd, rfl, rfl⟩
    · cases h
  · cases h

theorem Cuts.no_err (h : Cuts ms bytes) (text : String) : .err text ∉ arrivals ms := by
  obtain ⟨chunks, _, heq | heq⟩ := h
  · simp [heq]
  · simp [heq]

theorem Cuts.bytesOf (h : Cuts ms bytes) : bytesOf (arrivals ms) = bytes := by
  obtain ⟨chunks, rfl, heq | heq⟩ := h
  · rw [heq, bytesOf_chunks]
  · rw [heq, bytesOf_append, bytesOf_chunks]
    exact List.append_nil _

theorem Cuts.done_last (h : Cuts ms bytes) {before after : List Incoming}
    (heq : arrivals ms = before ++ [.done] ++ after) : after = [] := by
  obtain ⟨chunks, _, hchunks | hchunks⟩ := h
  · have hmem : Incoming.done ∈ chunks.map Incoming.chunk := by
      rw [← hchunks, heq]
      simp
    simp at hmem
  · rcases List.eq_nil_or_concat after with hnil | ⟨after', last, rfl⟩
    · exact hnil
    · rw [hchunks, List.concat_eq_append, ← List.append_assoc] at heq
      have hmem : Incoming.done ∈ chunks.map Incoming.chunk := by
        rw [(List.append_inj' heq rfl).1]
        simp
      simp at hmem

end Runs

end ActixSend.WebSocket
