import ActixSend.WebSocket.Chunks
import ActixSend.WebSocket.Chunking

/-! # The round trip over the wire

The encode stream of one connection and the decode stream of another, and
between them bytes that keep their order and are cut anyhow. The two codecs are
relied on for `Speaks`: one message at a time, the receiver's codec reads what
the sender's codec writes.
-/

namespace ActixSend.WebSocket

open Transition
set_option autoImplicit false

variable {C D : Codec}

/-- A message that fits makes one frame, and that frame makes the message again.
`R` relates what the codecs remember of the messages before. -/
structure Speaks (C D : Codec) (R : C.State → D.State → Prop) (Fits : Message → Prop) : Prop where
  frame : ∀ c d msg c' bytes, R c d → Fits msg → msg.isFrame = true →
    C.encode c msg = (c', .ok bytes) → ∃ d' f, IsFrame D.decode d bytes d' f ∧
      frameItem f = (.ok msg : Except (ProtocolError D) Message) ∧ R c' d'
  nop : ∀ c d c' bytes, R c d → C.encode c .nop = (c', .ok bytes) → bytes = [] ∧ R c' d
  rejected : ∀ c d msg c' e, R c d → C.encode c msg = (c', .error e) → R c' d

/-- The messages that the codec takes, less `Nop`, which is not sent. -/
def Codec.accepted (C : Codec) : C.State → List Message → List Message
  | _, [] => []
  | codec, msg :: rest =>
    match C.encode codec msg with
    | (codec, .ok _) =>
      if msg.isFrame then msg :: accepted C codec rest else accepted C codec rest
    | (codec, .error _) => accepted C codec rest

theorem Speaks.exists_frames {R : C.State → D.State → Prop} {Fits : Message → Prop}
    (h : Speaks C D R Fits) {c : C.State} {d : D.State} {msgs : List Message} (hR : R c d)
    (hfits : ∀ msg ∈ msgs, Fits msg) : ∃ fs : List Frame,
      FrameList D.decode d (Codec.okBytes (C.encodeAll c msgs).2) fs ∧
      fs.map frameItem =
        ((C.accepted c msgs).map .ok : List (Except (ProtocolError D) Message)) := by
  induction msgs generalizing c d with
  | nil => exact ⟨[], .nil d, rfl⟩
  | cons msg rest ih =>
    have hrest : ∀ msg ∈ rest, Fits msg := fun msg hmsg => hfits msg (List.mem_cons_of_mem _ hmsg)
    rcases hencode : C.encode c msg with ⟨c', e | bytes⟩
    · simp only [Codec.encodeAll, Codec.accepted, hencode]
      exact ih (h.rejected c d msg c' e hR hencode) hrest
    · cases hframe : msg.isFrame with
      | true =>
        obtain ⟨d', f, hf, hitem, hR'⟩ :=
          h.frame c d msg c' bytes hR (hfits msg List.mem_cons_self) hframe hencode
        obtain ⟨fs, hfs, hitems⟩ := ih hR' hrest
        simp only [Codec.encodeAll, Codec.accepted, hencode, hframe, if_true]
        refine ⟨f :: fs, .cons hf hfs, ?_⟩
        rw [List.map_cons, hitem, hitems]
        rfl
      | false =>
        obtain rfl : msg = .nop := by
          cases msg with
          | nop => rfl
          | _ => cases hframe
        obtain ⟨rfl, hR'⟩ := h.nop c d c' bytes hR hencode
        simp only [Codec.encodeAll, Codec.accepted, hencode]
        exact ih hR' hrest

namespace DecodeStream

/-- What was read, with `more` behind it, is the frames `fs`. -/
def Expects (d : DecodeStream D) (more : Bytes) (fs : List Frame) : Prop :=
  FrameList D.decode d.codec (d.readBuf ++ more) fs

theorem nextFrame_expects {d d' : DecodeStream D} {now : Nat} {more : Bytes} {fs : List Frame}
    {item : Option (Except (ProtocolError D) Message)} (hd : d.Expects more fs)
    (h : d.nextFrame now = (d', item)) :
    (∃ f fs', fs = f :: fs' ∧ item = some (frameItem f) ∧ d'.Expects more fs') ∨
      item = none ∧ d' = d ∧ (more = [] → fs = []) := by
  simp only [nextFrame] at h
  split at h
  · rename_i hempty
    cases h
    refine .inr ⟨rfl, rfl, ?_⟩
    rintro rfl
    rw [Expects, List.isEmpty_iff.mp hempty] at hd
    exact hd.eq_nil
  · rename_i hbuf
    rw [List.isEmpty_iff] at hbuf
    rcases FrameList.decode_part hd hbuf with ⟨f, fs', codec, buf, rfl, hdecode, htail⟩ |
      ⟨hdecode, hmore⟩
    · rw [hdecode] at h
      cases h
      obtain ⟨hitem, hcodec, hread⟩ :=
        toMessage_item { d with codec := codec, readBuf := buf } now f
      refine .inl ⟨f, fs', rfl, congrArg some hitem, ?_⟩
      rw [Expects, hcodec, hread]
      exact htail
    · rw [hdecode] at h
      cases h
      exact .inr ⟨rfl, rfl, fun hnil => absurd hnil hmore⟩

/-- A poll that takes `taken` off the inner stream, where the frames `fs` are
expected in all, yields the item of the first one or nothing. -/
inductive Answers (taken : List Incoming) (d' : DecodeStream D) (more : Bytes) :
    List Frame → Poll (Option (Except (ProtocolError D) Message)) → Prop
  | frame (f : Frame) (fs : List Frame) (expects : d'.Expects (bytesOf d'.stream ++ more) fs) :
      Answers taken d' more (f :: fs) (.ready (some (frameItem f)))
  | rests (fs : List Frame) (answer : Poll (Option (Except (ProtocolError D) Message)))
      (rest : answer = .pending ∨ answer = .ready none)
      (stream : d'.stream = [] ∨ ∃ before, taken = before ++ [.done])
      (expects : d'.Expects (bytesOf d'.stream ++ more) fs)
      (dry : bytesOf d'.stream ++ more = [] → fs = []) : Answers taken d' more fs answer

theorem readLoop_answers {d d' : DecodeStream D} {now : Nat} {incoming : List Incoming}
    {more : Bytes} {fs : List Frame} {answer : Poll (Option (Except (ProtocolError D) Message))}
    (hnoerr : ∀ text, .err text ∉ incoming) (hd : d.Expects (bytesOf incoming ++ more) fs)
    (h : d.readLoop now incoming = (d', answer)) :
    ∃ taken, incoming = taken ++ d'.stream ∧ Answers taken d' more fs answer := by
  induction incoming generalizing d with
  | nil =>
    simp only [readLoop] at h
    rcases hnext : d.nextFrame now with ⟨d₁, item⟩
    rcases nextFrame_expects hd hnext with ⟨f, fs', rfl, rfl, hd'⟩ | ⟨rfl, rfl, hdry⟩
    · rw [hnext] at h
      cases h
      exact ⟨[], rfl, .frame f fs' hd'⟩
    · rw [hnext] at h
      cases h
      exact ⟨[], rfl, .rests fs _ (.inl rfl) (.inl rfl) hd hdry⟩
  | cons i rest ih =>
    simp only [readLoop] at h
    rcases hnext : d.nextFrame now with ⟨d₁, item⟩
    rcases nextFrame_expects hd hnext with ⟨f, fs', rfl, rfl, hd'⟩ | ⟨rfl, rfl, hdry⟩
    · rw [hnext] at h
      cases h
      exact ⟨[], rfl, .frame f fs' hd'⟩
    · rw [hnext] at h
      cases i with
      | chunk data =>
        have hd' : DecodeStream.Expects { d₁ with readBuf := d₁.readBuf ++ data }
            (bytesOf rest ++ more) fs := by
          rw [Expects, bytesOf, List.append_assoc, ← List.append_assoc] at hd
          exact hd
        obtain ⟨taken, hrest, hanswers⟩ :=
          ih (fun text htext => hnoerr text (List.mem_cons_of_mem _ htext)) hd' h
        refine ⟨.chunk data :: taken, congrArg (Incoming.chunk data :: ·) hrest, ?_⟩
        cases hanswers with
        | frame f fs expects => exact .frame f fs expects
        | rests _ _ hrest stream expects dry =>
          refine .rests fs answer hrest ?_ expects dry
          rcases stream with hnil | ⟨before, rfl⟩
          · exact .inl hnil
          · exact .inr ⟨.chunk data :: before, rfl⟩
      | err text => exact absurd List.mem_cons_self (hnoerr text)
      | done =>
        cases h
        exact ⟨[.done], rfl, .rests fs _ (.inr rfl) (.inr ⟨[], rfl⟩) hd hdry⟩

end DecodeStream

open DecodeStream in
theorem pollDecode_answers {s t : Connection D} {d : DecodeStream D} {w now now' : Nat}
    {more : Bytes} {fs : List Frame} {answer : Poll (Option (Except (ProtocolError D) Message))}
    (hnoerr : ∀ text, .err text ∉ d.stream) (hd : d.Expects (bytesOf d.stream ++ more) fs)
    (h : s.pollDecode d w now now' = (t, answer)) :
    ∃ d' taken, t.decode = some d' ∧ d.stream = taken ++ d'.stream ∧
      DecodeStream.Answers taken d' more fs answer ∧ t.yielded = s.yielded := by
  simp only [Connection.pollDecode] at h
  rcases hloop : d.readLoop now d.stream with ⟨d', item | _⟩
  · obtain ⟨taken, hstream, hanswers⟩ := readLoop_answers hnoerr hd hloop
    rw [hloop] at h
    cases h
    exact ⟨d', taken, rfl, hstream, hanswers, rfl⟩
  · obtain ⟨taken, hstream, hanswers⟩ := readLoop_answers hnoerr hd hloop
    simp only [hloop] at h
    have hanswer := checkTimer_answer s d' w now now'
    obtain ⟨timer, woken, hcheck⟩ := checkTimer_cases s d' w now now'
    rw [h] at hanswer hcheck
    cases hanswers with
    | rests _ _ _ stream expects dry =>
      refine ⟨{ d' with timer := timer }, taken, ?_, hstream,
        .rests fs _ hanswer stream expects dry, ?_⟩
      · rcases hcheck with rfl | ⟨msg, rfl⟩
        · rfl
        · rw [push_eq]
      · rcases hcheck with rfl | ⟨msg, rfl⟩
        · rfl
        · rw [push_eq]

theorem DecodeStream.Answers.item {taken : List Incoming} {d' : DecodeStream D} {more : Bytes}
    {fs : List Frame} {answer : Poll (Option (Except (ProtocolError D) Message))}
    (h : DecodeStream.Answers taken d' more fs answer) :
    ∃ fs', d'.Expects (bytesOf d'.stream ++ more) fs' ∧
      fs.map frameItem = answer.item?.toList ++ fs'.map frameItem := by
  cases h with
  | frame f fs expects => exact ⟨fs, expects, rfl⟩
  | rests _ _ rest stream expects dry =>
    refine ⟨fs, expects, ?_⟩
    rcases rest with rfl | rfl <;> rfl

/-- The items yielded are the first of `total`. The other ones are in what the
decode stream has not taken yet, followed by `future`, which has not arrived. -/
structure Receiving (total : List (Except (ProtocolError D) Message)) (arrived : List Incoming)
    (future : Bytes) (t : Connection D) : Prop where
  items : t.items <+: total
  expects : ∀ d, t.decode = some d → ∃ fs, d.Expects (bytesOf d.stream ++ future) fs ∧
    t.items ++ fs.map frameItem = total
  stream : ∀ d, t.decode = some d → ∃ taken, arrived = taken ++ d.stream

variable {total : List (Except (ProtocolError D) Message)} {arrived : List Incoming}
  {future : Bytes} {s t : Connection D} {act : Act}

theorem Receiving.no_err (hs : Receiving total arrived future s)
    (hnoerr : ∀ text, .err text ∉ arrived) {d : DecodeStream D} (hd : s.decode = some d)
    (text : String) : .err text ∉ d.stream := by
  intro htext
  obtain ⟨taken, rfl⟩ := hs.stream d hd
  exact hnoerr text (List.mem_append_right _ htext)

theorem Receiving.arrive {incoming : Incoming}
    (hs : Receiving total arrived (bytesOf [incoming] ++ future) s)
    (h : step s (.arrive incoming) = some t) :
    Receiving total (arrived ++ [incoming]) future t := by
  cases ConnectionMove.of_step h with
  | @arrive _ d hd =>
    refine ⟨hs.items, fun d' hd' => ?_, fun d' hd' => ?_⟩
    · cases hd'
      obtain ⟨fs, hfs, htotal⟩ := hs.expects d hd
      refine ⟨fs, ?_, htotal⟩
      dsimp only
      rw [bytesOf_append, List.append_assoc]
      exact hfs
    · cases hd'
      obtain ⟨taken, htaken⟩ := hs.stream d hd
      exact ⟨taken, by rw [htaken, List.append_assoc]⟩

theorem Receiving.poll {w now now' : Nat} (hnoerr : ∀ text, .err text ∉ arrived)
    (hs : Receiving total arrived future s) (h : step s (.pollDecode w now now') = some t) :
    Receiving total arrived future t := by
  obtain ⟨d, u, answer, hd, hpoll, rfl⟩ := pollDecode_step h
  obtain ⟨fs, hfs, htotal⟩ := hs.expects d hd
  obtain ⟨before, hbefore⟩ := hs.stream d hd
  obtain ⟨d₁, taken, hd₁, hstream, hanswers, hyielded⟩ :=
    pollDecode_answers (hs.no_err hnoerr hd) hfs hpoll
  obtain ⟨fs', hfs', hitems⟩ := hanswers.item
  have hsnoc : Connection.items { u with clock := now', yielded := u.yielded ++ [(w, answer)] } =
      s.items ++ answer.item?.toList := by
    rw [items_snoc, Connection.items, hyielded, ← Connection.items]
  have hwhole : s.items ++ answer.item?.toList ++ fs'.map frameItem = total := by
    rw [List.append_assoc, ← hitems, htotal]
  constructor
  · rw [hsnoc]
    exact ⟨_, hwhole⟩
  · intro d₂ hd₂
    obtain rfl : d₁ = d₂ := Option.some.inj (hd₁.symm.trans hd₂)
    exact ⟨fs', hfs', by rw [hsnoc, hwhole]⟩
  · intro d₂ hd₂
    obtain rfl : d₁ = d₂ := Option.some.inj (hd₁.symm.trans hd₂)
    exact ⟨before ++ taken, by rw [hbefore, hstream, List.append_assoc]⟩

theorem Receiving.same (hs : Receiving total arrived future s) (h : SameItems s t) :
    Receiving total arrived future t := by
  have hitems : t.items = s.items := by rw [Connection.items, h.yielded, ← Connection.items]
  constructor
  · rw [hitems]
    exact hs.items
  · intro d hd
    obtain ⟨d₀, timer, hd₀, rfl⟩ := h.decode d hd
    rw [hitems]
    exact hs.expects d₀ hd₀
  · intro d hd
    obtain ⟨d₀, timer, hd₀, rfl⟩ := h.decode d hd
    exact hs.stream d₀ hd₀

def maskFrame (head : UInt8) (payload : Bytes) : Except Unit Bytes :=
  if payload.length < 126 then
    .ok (head :: (0x80 ||| UInt8.ofNat payload.length) :: 0x37 :: 0xFA :: 0x21 :: 0x3D ::
      unmask [0x37, 0xFA, 0x21, 0x3D] payload)
  else .error ()

/-- A client's codec for outgoing frames with a short payload. -/
def clientCodec : Codec where
  State := Unit
  Error := Unit
  new := ()
  encode _ msg := ((), match msg with
    | .text data => maskFrame 0x81 data.toUTF8.data.toList
    | .binary data => maskFrame 0x82 data
    | .continuation _ => .error ()
    | .ping data => maskFrame 0x89 data
    | .pong data => maskFrame 0x8A data
    | .nop => .ok []
    | .close _ => .error ())
  decode _ buf := ((), buf, .ok none)

theorem unmask_unmask (key data : Bytes) : unmask key (unmask key data) = data := by
  apply List.ext_getElem
  · simp [unmask]
  · intro i _ _
    simp only [unmask, List.getElem_mapIdx, UInt8.xor_assoc, UInt8.xor_self, UInt8.xor_zero]

theorem length_unmask (key data : Bytes) : (unmask key data).length = data.length := by
  simp [unmask]

theorem fromUTF8?_toUTF8 (text : String) :
    String.fromUTF8? ⟨text.toUTF8.data.toList.toArray⟩ = some text := by
  rw [Array.toArray_toList]
  exact dif_pos text.isValidUTF8

theorem shortLength {n : Nat} (h : n < 126) : ((0x80 ||| UInt8.ofNat n) &&& 0x7F).toNat = n := by
  have hmask : (0x7F : UInt8).toNat = 2 ^ 7 - 1 := rfl
  have hbit : (0x80 : UInt8).toNat = 2 ^ 7 := rfl
  rw [UInt8.toNat_and, UInt8.toNat_or, UInt8.toNat_ofNat_of_lt' (by simp [UInt8.size]; omega),
    hmask, hbit, Nat.and_two_pow_sub_one_eq_mod, Nat.or_mod_two_pow, Nat.mod_self, Nat.zero_or]
  exact Nat.mod_eq_of_lt (by omega)

theorem isFrame_maskFrame {head : UInt8} {payload bytes : Bytes} {f : Frame}
    (hf : frameOfOpcode head payload = some f) (h : maskFrame head payload = .ok bytes) :
    IsFrame maskedCodec.decode () bytes () f := by
  unfold maskFrame at h
  split at h
  · rename_i hshort
    cases h
    have hlength := length_unmask [0x37, 0xFA, 0x21, 0x3D] payload
    have hn := shortLength hshort
    refine ⟨nofun, fun more => ?_, fun q hq hne => ?_⟩
    · simp only [maskedCodec, List.cons_append, decodeMasked]
      rw [hn, if_neg (by rw [List.length_append, hlength]; omega), List.take_left' hlength,
        List.drop_left' hlength, unmask_unmask, hf]
    · simp only [maskedCodec]
      rw [decodeMasked_part q _ _ _ _ _ _ _ (hlength.trans hn.symm) hq hne]
  · cases h

theorem speaks_clientCodec :
    Speaks clientCodec maskedCodec (fun _ _ => True) (fun _ => True) where
  frame := by
    intro c d msg c' bytes _ _ _ h
    have h' := (Prod.mk.inj h).2
    cases msg with
    | text data =>
      refine ⟨(), .text data.toUTF8.data.toList, isFrame_maskFrame rfl h', ?_, trivial⟩
      simp only [frameItem, fromUTF8?_toUTF8]
    | binary data => exact ⟨(), .binary data, isFrame_maskFrame rfl h', rfl, trivial⟩
    | ping data => exact ⟨(), .ping data, isFrame_maskFrame rfl h', rfl, trivial⟩
    | pong data => exact ⟨(), .pong data, isFrame_maskFrame rfl h', rfl, trivial⟩
    | nop => contradiction
    | continuation item => cases h'
    | close reason => cases h'
  nop := by
    intro c d c' bytes _ h
    cases h
    exact ⟨rfl, trivial⟩
  rejected := by
    intro c d msg c' e _ _
    trivial

def roundTripBytes : Bytes :=
  [0x81, 0x81, 0x37, 0xFA, 0x21, 0x3D, 0x56, 0x82, 0x81, 0x37, 0xFA, 0x21, 0x3D, 0x55]

section Runs
variable {cfg : WsConfig C} {cfg' : WsConfig D} {now now' now₁ now₁' : Nat}
  {ms : List (Move (Connection D) Act)} {bytes : Bytes}

theorem receiving_of_path {fs : List Frame}
    (hfs : FrameList D.decode (cfg'.codec.getD D.new) bytes fs)
    (h : Path step (splitStream cfg' now now') ms t) (hnoerr : ∀ text, .err text ∉ arrivals ms)
    (hbytes : bytesOf (arrivals ms) ++ future = bytes) :
    Receiving (fs.map frameItem) (arrivals ms) future t := by
  induction h generalizing future with
  | nil =>
    refine ⟨List.nil_prefix, fun d hd => ?_, fun d hd => ?_⟩
    · cases hd
      refine ⟨fs, ?_, rfl⟩
      rw [← hbytes] at hfs
      exact hfs
    · cases hd
      exact ⟨[], rfl⟩
  | @snoc ms u v act hms hstep ih =>
    have hbefore : ∀ text, .err text ∉ arrivals ms := by
      intro text htext
      refine hnoerr text ?_
      rw [arrivals_append]
      exact List.mem_append_left _ htext
    by_cases harrive : ∃ incoming, act = .arrive incoming
    · obtain ⟨incoming, rfl⟩ := harrive
      have hlast : arrivals (ms ++ [⟨u, .arrive incoming, v⟩]) = arrivals ms ++ [incoming] :=
        arrivals_append ms _
      rw [hlast, bytesOf_append, List.append_assoc] at hbytes
      rw [hlast]
      exact (ih hbefore hbytes).arrive hstep
    · have hsame : arrivals (ms ++ [⟨u, act, v⟩]) = arrivals ms :=
        arrivals_snoc ms ⟨u, act, v⟩ fun incoming heq => harrive ⟨incoming, heq⟩
      rw [hsame] at hbytes ⊢
      by_cases hpoll : ∃ w n n', act = .pollDecode w n n'
      · obtain ⟨w, n, n', rfl⟩ := hpoll
        exact (ih hbefore hbytes).poll hbefore hstep
      · exact (ih hbefore hbytes).same (step_sameItems hstep
          (fun incoming heq => harrive ⟨incoming, heq⟩) fun w n n' heq => hpoll ⟨w, n, n', heq⟩)

theorem items_of_rests {fs : List Frame} {m : Move (Connection D) Act}
    (hfs : FrameList D.decode (cfg'.codec.getD D.new) bytes fs)
    (h : Path step (splitStream cfg' now now') (ms ++ [m]) t) (hcuts : Cuts ms bytes)
    (hm : DecodeRests m) : t.items = fs.map frameItem := by
  obtain ⟨u, hu, hstep, heq⟩ := h.last
  obtain ⟨w, n, n', hact, hrests⟩ := hm
  rw [hact] at hstep
  rw [heq] at hrests
  have hbytes : bytesOf (arrivals ms) ++ [] = bytes := by rw [List.append_nil, hcuts.bytesOf]
  have hreceiving := receiving_of_path hfs hu hcuts.no_err hbytes
  obtain ⟨d, u', answer, hd, hpoll, rfl⟩ := pollDecode_step hstep
  obtain ⟨fs', hfs', htotal⟩ := hreceiving.expects d hd
  obtain ⟨before, hbefore⟩ := hreceiving.stream d hd
  obtain ⟨d', taken, hd', hstream, hanswers, hyielded⟩ :=
    pollDecode_answers (hreceiving.no_err hcuts.no_err hd) hfs' hpoll
  have hrest : answer = .pending ∨ answer = .ready none := by simpa using hrests
  have hitems : Connection.items { u' with clock := n', yielded := u'.yielded ++ [(w, answer)] } =
      u.items := by
    rw [items_snoc, Connection.items, hyielded, ← Connection.items]
    rcases hrest with rfl | rfl <;> exact List.append_nil _
  have hnil : fs' = [] := by
    cases hanswers with
    | frame f fs expects => rcases hrest with hrest | hrest <;> cases hrest
    | rests _ _ _ stream expects dry =>
      apply dry
      rcases stream with hnil | ⟨before', rfl⟩
      · rw [hnil]
        rfl
      · rw [hstream, ← List.append_assoc, ← List.append_assoc] at hbefore
        rw [hcuts.done_last hbefore]
        rfl
  rw [hitems, ← htotal, hnil]
  exact (List.append_nil _).symm

theorem Serves.mem {init : C.State} {served : List (Source × Message)} {s : Connection C}
    (h : Serves init served s) {msg : Message} (hmsg : msg ∈ served.map Prod.snd) :
    msg ∈ s.pushed ++ s.sent := by
  obtain ⟨⟨source, msg⟩, hserved, rfl⟩ := List.mem_map.mp hmsg
  have hsource : msg ∈ messagesOf source served :=
    List.mem_map.mpr ⟨(source, msg), List.mem_filter.mpr ⟨hserved, beq_self_eq_true source⟩, rfl⟩
  cases source with
  | queue =>
    rw [← h.queue]
    exact List.mem_append_left _ (List.mem_append_left _ hsource)
  | channel =>
    rw [← h.channel]
    exact List.mem_append_right _ (List.mem_append_left _ hsource)

/-- Whatever the order of pushes, sends and polls at one end, and however the
bytes are cut and polled at the other, the items that come out are the messages
the sender's codec took, from the first one on, and all of them once all the
bytes are there and a poll finds nothing more. -/
theorem round_trip {R : C.State → D.State → Prop} {Fits : Message → Prop}
    (hspeaks : Speaks C D R Fits) (hR : R (cfg.codec.getD C.new) (cfg'.codec.getD D.new))
    {ms' : List (Move (Connection C) Act)} {s : Connection C}
    (hs : Path step (splitStream cfg now now') ms' s) (hfits : ∀ msg ∈ s.pushed ++ s.sent, Fits msg)
    (ht : Path step (splitStream cfg' now₁ now₁') ms t) (hcuts : Cuts ms bytes)
    (hbytes : bytes <+: s.wire) :
    ∃ served, Serves (cfg.codec.getD C.new) served s ∧
      t.items <+: (C.accepted (cfg.codec.getD C.new) (served.map Prod.snd)).map .ok ∧
      (bytes = s.wire → (∃ m, ms.getLast? = some m ∧ DecodeRests m) →
        t.items = (C.accepted (cfg.codec.getD C.new) (served.map Prod.snd)).map .ok) := by
  obtain ⟨served, hserves⟩ := exists_serves hs
  obtain ⟨future, hfuture⟩ := hbytes
  obtain ⟨fs, hfs, hitems⟩ :=
    hspeaks.exists_frames hR fun msg hmsg => hfits msg (hserves.mem hmsg)
  rw [← hserves.wire] at hfs
  refine ⟨served, hserves, ?_, ?_⟩
  · have hall : bytesOf (arrivals ms) ++ future = s.wire := by rw [hcuts.bytesOf, hfuture]
    rw [← hitems]
    exact (receiving_of_path hfs ht hcuts.no_err hall).items
  · rintro rfl ⟨m, hlast, hrests⟩
    rw [← hitems]
    obtain ⟨ps, rfl⟩ := List.getLast?_eq_some_iff.mp hlast
    obtain ⟨w, n, n', hact, _⟩ := hrests
    have hbefore : arrivals (ps ++ [m]) = arrivals ps :=
      arrivals_snoc ps m fun incoming heq => by rw [hact] at heq; cases heq
    rw [Cuts, hbefore] at hcuts
    exact items_of_rests hfs ht hcuts ⟨w, n, n', hact, ‹_›⟩

/-- A text pushed on the queue and a binary message sent through the channel,
received in two pieces. -/
theorem round_trip_two : ∃ ms' s ms t,
    Path step (splitStream (WsConfig.default clientCodec) 0 0) ms' s ∧
      Path step (splitStream (WsConfig.default maskedCodec) 0 0) ms t ∧
      bytesOf (arrivals ms) = s.wire ∧ ∃ served, Serves clientCodec.new served s ∧
        t.items = (clientCodec.accepted () (served.map Prod.snd)).map .ok ∧
        t.items.length = 2 := by
  obtain ⟨ms', s, hs, _, _, hwire⟩ := exists_path_of_checkedRun step
    (splitStream (WsConfig.default clientCodec) 0 0)
    [.push (.text "a"), .send (.binary [0x62]), .pollEncode 0 128] (fun _ _ _ => true)
    (fun s => decide (s.wire = roundTripBytes)) (by decide)
  obtain ⟨ms, u, t, ht, hacts, hp⟩ := exists_path_of_eval step
    (splitStream (WsConfig.default maskedCodec) 0 0)
    [.arrive (.chunk (roundTripBytes.take 8)), .pollDecode 0 0 0,
      .arrive (.chunk (roundTripBytes.drop 8)), .pollDecode 0 0 0] (.pollDecode 0 0 0)
    (fun _ t => decide (t.items.length = 2) &&
      t.yielded.getLast?.any fun y => y.1 == 0 && y.2.isPending) (by decide)
  rw [Bool.and_eq_true, decide_eq_true_eq] at hp
  obtain ⟨hlength, hpending⟩ := hp
  have hrests : t.yielded.getLast? = some (0, .pending) := last_pending hpending
  have harrivals : arrivals (ms ++ [⟨u, .pollDecode 0 0 0, t⟩]) =
      [.chunk (roundTripBytes.take 8), .chunk (roundTripBytes.drop 8)] := by
    rw [arrivals_snoc _ _ (fun _ heq => by cases heq), arrivals, hacts]
    rfl
  have hcuts : Cuts (ms ++ [⟨u, .pollDecode 0 0 0, t⟩]) roundTripBytes :=
    ⟨[roundTripBytes.take 8, roundTripBytes.drop 8], rfl, .inl harrivals⟩
  have hwire : s.wire = roundTripBytes := of_decide_eq_true hwire
  obtain ⟨served, hserves, _, hitems⟩ := round_trip speaks_clientCodec trivial hs
    (fun _ _ => trivial) ht hcuts (hwire ▸ List.prefix_refl _)
  exact ⟨ms', s, _, t, hs, ht, hcuts.bytesOf.trans hwire.symm, served, hserves,
    hitems hwire.symm ⟨_, List.getLast?_concat, 0, 0, 0, rfl, .inl hrests⟩, hlength⟩

end Runs

end ActixSend.WebSocket
