import ActixSend.Text

/-! # The handshake

`handshake_with_protocols`: the checks of a request in their order, and the
protocol it selects for the response. Requests and their header maps are those
of `actix_http`, so what is asked of them is a parameter.
-/

namespace ActixSend.WebSocket

set_option autoImplicit false

abbrev HeaderValue := List UInt8

inductive HeaderName
  | upgrade
  | connection
  | secWebSocketVersion
  | secWebSocketKey
  | secWebSocketProtocol
  | transferEncoding
  | secWebSocketAccept
  deriving DecidableEq, Repr

inductive Method
  | get
  | other (name : String)
  deriving DecidableEq, Repr

inductive HandshakeError
  | getMethodRequired
  | noWebsocketUpgrade
  | noConnectionUpgrade
  | noVersionHeader
  | unsupportedVersion
  | badWebsocketKey
  deriving DecidableEq, Repr

/-- What is used of `actix_http`: `HeaderMap` with `get` and `get_all`,
`RequestHead::upgrade` and `hash_key`. -/
structure Http where
  HeaderMap : Type
  get : HeaderMap → HeaderName → Option HeaderValue
  getAll : HeaderMap → HeaderName → List HeaderValue
  upgrade : HeaderMap → Bool
  hashKey : HeaderValue → HeaderValue

/-- `HeaderMap::get` answers the first of the values of a name. -/
def Http.GetsFirst (http : Http) : Prop :=
  ∀ headers name, http.get headers name = (http.getAll headers name).head?

structure HttpRequest (http : Http) where
  method : Method
  headers : http.HeaderMap

/-- A response under construction, with the headers inserted besides `Upgrade`. -/
structure ResponseBuilder where
  status : Nat
  upgrade : Text
  headers : List (HeaderName × HeaderValue)
  deriving DecidableEq

def toBytes (t : Text) : HeaderValue := t.map fun c => UInt8.ofNat c.toNat

def isVisibleAscii (b : UInt8) : Bool := 32 ≤ b.toNat && b.toNat < 127 || b.toNat == 9

def toStr (value : HeaderValue) : Option Text :=
  if value.all isVisibleAscii then some (value.map fun b => Char.ofNat b.toNat) else none

section Handshake
variable {http : Http}

/-- The checks, up to the key's hash. -/
def checkRequest (req : HttpRequest http) : Except HandshakeError HeaderValue :=
  if req.method ≠ .get then .error .getMethodRequired
  else
    let hasHdr := match http.get req.headers .upgrade with
      | some hdr => match toStr hdr with
        | some s => s.toAsciiLowercase.contains "websocket".toList
        | none => false
      | none => false
    if !hasHdr then .error .noWebsocketUpgrade
    else if !http.upgrade req.headers then .error .noConnectionUpgrade
    else match http.get req.headers .secWebSocketVersion with
      | none => .error .noVersionHeader
      | some hdr =>
        if !(hdr == toBytes "13".toList || hdr == toBytes "8".toList || hdr == toBytes "7".toList)
        then .error .unsupportedVersion
        else match http.get req.headers .secWebSocketKey with
          | none => .error .badWebsocketKey
          | some key => .ok (http.hashKey key)

def selectProtocol (req : HttpRequest http) (protocols : List Text) : Option Text :=
  (http.get req.headers .secWebSocketProtocol).bind fun reqProtocols =>
    (toStr reqProtocols).bind fun reqProtocols =>
      ((reqProtocols.splitOn ',').map Text.trim).find? fun reqP =>
        protocols.any fun p => p == reqP

def handshakeWithProtocols (req : HttpRequest http) (protocols : List Text) :
    Except HandshakeError ResponseBuilder :=
  match checkRequest req with
  | .error e => .error e
  | .ok key =>
    let response := ⟨101, "websocket".toList,
      [(.transferEncoding, toBytes "chunked".toList), (.secWebSocketAccept, key)]⟩
    match selectProtocol req protocols with
    | some protocol => .ok { response with
        headers := response.headers ++ [(.secWebSocketProtocol, toBytes protocol)] }
    | none => .ok response

def ResponseBuilder.protocol (response : ResponseBuilder) : Option HeaderValue :=
  response.headers.lookup .secWebSocketProtocol

end Handshake

def isBlank (c : Char) : Bool := c == ' ' || c == '\t'

structure Padded where
  before : Text
  token : Text
  after : Text
  beforeBlank : ∀ c ∈ before, isBlank c = true
  afterBlank : ∀ c ∈ after, isBlank c = true
  visible : ∀ c ∈ token, 33 ≤ c.toNat ∧ c.toNat ≤ 126 ∧ c ≠ ','

/-- A `Sec-WebSocket-Protocol` header field, a list of tokens that is not empty. -/
structure ProtocolField where
  first : Padded
  rest : List Padded

def Padded.text (p : Padded) : Text := p.before ++ (p.token ++ p.after)

def ProtocolField.padded (f : ProtocolField) : List Padded := f.first :: f.rest

def ProtocolField.value (f : ProtocolField) : HeaderValue :=
  toBytes ([','].intercalate (f.padded.map Padded.text))

def ProtocolField.tokens (f : ProtocolField) : List Text := f.padded.map Padded.token

/-- The first token of the combined list that the server knows. -/
def firstCommon (fields : List ProtocolField) (protocols : List Text) : Option Text :=
  (fields.flatMap ProtocolField.tokens).find? fun t => decide (t ∈ protocols)

/-- No field after the first one matters. -/
def FirstDecides (fields : List ProtocolField) (protocols : List Text) : Prop :=
  (∃ f, fields.head? = some f ∧ ∃ t ∈ f.tokens, t ∈ protocols) ∨
    ∀ f ∈ fields.tail, ∀ t ∈ f.tokens, t ∉ protocols

section Results
variable {http : Http}

structure Negotiates (req : HttpRequest http) (fields : List ProtocolField)
    (protocols : List Text) (response : ResponseBuilder) : Prop where
  accepted : handshakeWithProtocols req protocols = .ok response
  first : response.protocol = (firstCommon fields protocols).map toBytes
  none_iff : response.protocol = none ↔ ∀ f ∈ fields, ∀ t ∈ f.tokens, t ∉ protocols

theorem charOfByte {c : Char} (h : c.toNat < 128) :
    Char.ofNat (UInt8.ofNat c.toNat).toNat = c := by
  have hbyte : (UInt8.ofNat c.toNat).toNat = c.toNat := by
    rw [UInt8.toNat_ofNat']
    omega
  rw [hbyte, Char.ofNat_toNat]

def isPrintable (c : Char) : Prop := 32 ≤ c.toNat ∧ c.toNat < 127 ∨ c.toNat = 9

theorem toStr_toBytes {t : Text} (h : ∀ c ∈ t, isPrintable c) : toStr (toBytes t) = some t := by
  have hlt : ∀ c ∈ t, c.toNat < 128 := by
    intro c hc
    rcases h c hc with hc | hc <;> omega
  have hvisible : (toBytes t).all isVisibleAscii = true := by
    simp only [toBytes, List.all_map, List.all_eq_true, Function.comp_apply]
    intro c hc
    have hbyte : (UInt8.ofNat c.toNat).toNat = c.toNat := by
      have := hlt c hc
      rw [UInt8.toNat_ofNat']
      omega
    simp only [isVisibleAscii, hbyte, Bool.or_eq_true, Bool.and_eq_true, decide_eq_true_eq,
      beq_iff_eq]
    exact h c hc
  rw [toStr, if_pos hvisible, toBytes, List.map_map]
  congr 1
  conv_rhs => rw [← List.map_id t]
  exact List.map_congr_left fun c hc => charOfByte (hlt c hc)

theorem isWhitespace_of_blank {c : Char} (h : isBlank c = true) : isWhitespace c = true := by
  rcases (by simpa [isBlank] using h : c = ' ' ∨ c = '\t') with rfl | rfl <;> decide

theorem not_isWhitespace_of_visible {c : Char} (h : 33 ≤ c.toNat ∧ c.toNat ≤ 126 ∧ c ≠ ',') :
    isWhitespace c = false := by
  simp only [isWhitespace, Bool.or_eq_false_iff, Bool.and_eq_false_iff, decide_eq_false_iff_not,
    beq_eq_false_iff_ne]
  omega

theorem Padded.trim_text (p : Padded) : p.text.trim = p.token :=
  Text.trim_padded (fun c hc => isWhitespace_of_blank (p.beforeBlank c hc))
    (fun c hc => isWhitespace_of_blank (p.afterBlank c hc))
    fun c hc => not_isWhitespace_of_visible (p.visible c hc)

theorem Padded.text_cases (p : Padded) {c : Char} (hc : c ∈ p.text) :
    isBlank c = true ∨ 33 ≤ c.toNat ∧ c.toNat ≤ 126 ∧ c ≠ ',' := by
  rw [text, List.mem_append, List.mem_append] at hc
  rcases hc with hc | hc | hc
  · exact .inl (p.beforeBlank c hc)
  · exact .inr (p.visible c hc)
  · exact .inl (p.afterBlank c hc)

theorem isPrintable_of_text (p : Padded) {c : Char} (hc : c ∈ p.text) : isPrintable c := by
  rcases p.text_cases hc with hblank | hvisible
  · rcases (by simpa [isBlank] using hblank : c = ' ' ∨ c = '\t') with rfl | rfl
    · exact .inl (by decide)
    · exact .inr rfl
  · exact .inl ⟨by omega, by omega⟩

theorem comma_not_mem_text (p : Padded) : ',' ∉ p.text := by
  intro hc
  rcases p.text_cases hc with hblank | ⟨_, _, hne⟩
  · cases hblank
  · exact hne rfl

theorem ProtocolField.split_value (f : ProtocolField) :
    ((toStr f.value).map fun s => (s.splitOn ',').map Text.trim) = some f.tokens := by
  have hprint : ∀ c ∈ [','].intercalate (f.padded.map Padded.text), isPrintable c := by
    apply Text.forall_mem_intercalate
    · rintro c hc
      obtain rfl := List.mem_singleton.mp hc
      exact .inl (by decide)
    · intro t ht c hc
      obtain ⟨p, _, rfl⟩ := List.mem_map.mp ht
      exact isPrintable_of_text p hc
  rw [value, toStr_toBytes hprint, Option.map_some, List.splitOn_intercalate]
  · rw [List.map_map]
    congr 1
    exact List.map_congr_left fun p _ => p.trim_text
  · intro t ht
    obtain ⟨p, _, rfl⟩ := List.mem_map.mp ht
    exact comma_not_mem_text p
  · simp [padded]

/-- Only the first field is looked at. -/
theorem selectProtocol_eq (hfirst : http.GetsFirst) {req : HttpRequest http}
    {fields : List ProtocolField}
    (hfields : http.getAll req.headers .secWebSocketProtocol = fields.map ProtocolField.value)
    (protocols : List Text) : selectProtocol req protocols =
      fields.head?.bind fun f => f.tokens.find? fun t => decide (t ∈ protocols) := by
  have hknows : ∀ t : Text, (protocols.any fun p => p == t) = decide (t ∈ protocols) := by
    intro t
    rw [Bool.eq_iff_iff, List.any_eq_true, decide_eq_true_eq]
    constructor
    · rintro ⟨p, hp, heq⟩
      rwa [← beq_iff_eq.mp heq]
    · intro ht
      exact ⟨t, ht, beq_self_eq_true t⟩
  rw [selectProtocol, hfirst, hfields]
  cases fields with
  | nil => rfl
  | cons f rest =>
    have hsplit := f.split_value
    obtain ⟨s, hs, htokens⟩ := Option.map_eq_some_iff.mp hsplit
    simp only [List.map_cons, List.head?_cons, Option.bind_some, hs, htokens, hknows]

theorem handshake_of_checked {req : HttpRequest http} {key : HeaderValue}
    (hcheck : checkRequest req = .ok key) (protocols : List Text) :
    ∃ response, handshakeWithProtocols req protocols = .ok response ∧
      response.protocol = (selectProtocol req protocols).map toBytes := by
  simp only [handshakeWithProtocols, hcheck]
  cases selectProtocol req protocols with
  | none => exact ⟨_, rfl, rfl⟩
  | some protocol => exact ⟨_, rfl, rfl⟩

theorem firstCommon_eq_none {fields : List ProtocolField} {protocols : List Text} :
    firstCommon fields protocols = none ↔ ∀ f ∈ fields, ∀ t ∈ f.tokens, t ∉ protocols := by
  simp only [firstCommon, List.find?_eq_none, List.mem_flatMap, decide_eq_true_eq]
  constructor
  · intro h f hf t ht
    exact h t ⟨f, hf, ht⟩
  · rintro h t ⟨f, hf, ht⟩
    exact h f hf t ht

theorem firstCommon_head {fields : List ProtocolField} {protocols : List Text} :
    (fields.head?.bind fun f => f.tokens.find? fun t => decide (t ∈ protocols)) =
        firstCommon fields protocols ↔ FirstDecides fields protocols := by
  cases fields with
  | nil => simp [firstCommon, FirstDecides]
  | cons f rest =>
    have hcombined : firstCommon (f :: rest) protocols =
        (f.tokens.find? fun t => decide (t ∈ protocols)).or (firstCommon rest protocols) := by
      rw [firstCommon, List.flatMap_cons, List.find?_append, firstCommon]
    rw [List.head?_cons, Option.bind_some, hcombined, FirstDecides]
    cases hf : f.tokens.find? fun t => decide (t ∈ protocols) with
    | some t =>
      refine iff_of_true rfl (.inl ⟨f, rfl, t, List.mem_of_find?_eq_some hf, ?_⟩)
      simpa using List.find?_some hf
    | none =>
      rw [Option.none_or, eq_comm, firstCommon_eq_none, List.tail_cons]
      constructor
      · exact .inr
      · rintro (⟨f', hf', t, ht, hmem⟩ | h)
        · cases hf'
          have hnone := List.find?_eq_none.mp hf t ht
          simp only [decide_eq_true_eq] at hnone
          exact absurd hmem hnone
        · exact h

/-- Lists that combine to the same tokens and servers that know the same
protocols give the same answer. -/
theorem firstCommon_congr {fields fields' : List ProtocolField} {protocols protocols' : List Text}
    (hcombined : fields'.flatMap ProtocolField.tokens = fields.flatMap ProtocolField.tokens)
    (hknown : ∀ t, t ∈ protocols' ↔ t ∈ protocols) :
    firstCommon fields' protocols' = firstCommon fields protocols := by
  rw [firstCommon, firstCommon, hcombined]
  congr 1
  funext t
  rw [decide_eq_decide]
  exact hknown t

/-- When the code negotiates as it should, and what its answer then leaves open. -/
structure Selection (req : HttpRequest http) (fields : List ProtocolField)
    (protocols : List Text) : Prop where
  negotiates : (∃ response, Negotiates req fields protocols response) ↔
    FirstDecides fields protocols
  independent : FirstDecides fields protocols →
    ∀ (req' : HttpRequest http) (key' : HeaderValue) (fields' : List ProtocolField)
      (protocols' : List Text), checkRequest req' = .ok key' →
      http.getAll req'.headers .secWebSocketProtocol = fields'.map ProtocolField.value →
      fields'.flatMap ProtocolField.tokens = fields.flatMap ProtocolField.tokens →
      (∀ t, t ∈ protocols' ↔ t ∈ protocols) → FirstDecides fields' protocols' →
      selectProtocol req' protocols' = selectProtocol req protocols

theorem negotiates_iff_first_decides (hfirst : http.GetsFirst) {req : HttpRequest http}
    {key : HeaderValue} (hcheck : checkRequest req = .ok key) {fields : List ProtocolField}
    (hfields : http.getAll req.headers .secWebSocketProtocol = fields.map ProtocolField.value)
    (protocols : List Text) : Selection req fields protocols := by
  obtain ⟨response, haccepted, hprotocol⟩ := handshake_of_checked hcheck protocols
  rw [selectProtocol_eq hfirst hfields] at hprotocol
  constructor
  · constructor
    · rintro ⟨response', haccepted', hanswer, _⟩
      cases haccepted.symm.trans haccepted'
      rw [hprotocol] at hanswer
      rw [← firstCommon_head]
      cases hselected :
        fields.head?.bind fun f => f.tokens.find? fun t => decide (t ∈ protocols) with
      | some t =>
        rw [← hselected, firstCommon_head]
        obtain ⟨f, hf, ht⟩ := Option.bind_eq_some_iff.mp hselected
        refine .inl ⟨f, hf, t, List.mem_of_find?_eq_some ht, ?_⟩
        simpa using List.find?_some ht
      | none =>
        rw [hselected] at hanswer
        exact (Option.map_eq_none_iff.mp hanswer.symm).symm
    · intro hdecides
      rw [firstCommon_head.mpr hdecides] at hprotocol
      refine ⟨response, haccepted, hprotocol, ?_⟩
      rw [hprotocol, Option.map_eq_none_iff, firstCommon_eq_none]
  · intro hdecides req' key' fields' protocols' _ hfields' hcombined hknown hdecides'
    rw [selectProtocol_eq hfirst hfields', selectProtocol_eq hfirst hfields,
      firstCommon_head.mpr hdecides', firstCommon_head.mpr hdecides,
      firstCommon_congr hcombined hknown]

/-- Header maps as lists; the hash is that of the key `13`. -/
def listHttp : Http where
  HeaderMap := List (HeaderName × HeaderValue)
  get headers name := headers.lookup name
  getAll headers name := (headers.filter fun hdr => hdr.1 == name).map Prod.snd
  upgrade headers := match headers.lookup .connection with
    | some hdr => match toStr hdr with
      | some s => s.toAsciiLowercase.contains "upgrade".toList
      | none => false
    | none => false
  hashKey _ := toBytes "qRuMdykMYGEyIrjwimgOGL79D68=".toList

theorem listHttp_getsFirst : listHttp.GetsFirst := by
  intro headers name
  show List.lookup name headers = ((headers.filter fun hdr => hdr.1 == name).map Prod.snd).head?
  induction headers with
  | nil => rfl
  | cons hdr headers ih =>
    obtain ⟨name', value⟩ := hdr
    by_cases hname : name' = name
    · simp [hname]
    · have hname' : (name == name') = false := beq_false_of_ne fun h => hname h.symm
      rw [List.lookup_cons, hname', List.filter_cons_of_neg (by simpa using hname)]
      exact ih

def requestOf (fields : List ProtocolField) : HttpRequest listHttp where
  method := .get
  headers := [(.upgrade, toBytes "websocket".toList), (.connection, toBytes "upgrade".toList),
    (.secWebSocketVersion, toBytes "13".toList), (.secWebSocketKey, toBytes "13".toList)] ++
    fields.map fun f => (.secWebSocketProtocol, f.value)

def p1 : Padded where
  before := []
  token := ['p', '1']
  after := []
  beforeBlank := List.forall_mem_nil _
  afterBlank := List.forall_mem_nil _
  visible := List.forall_mem_cons.mpr ⟨by decide, List.forall_mem_singleton.mpr (by decide)⟩

def p2 : Padded where
  before := [' ']
  token := ['p', '2']
  after := []
  beforeBlank := List.forall_mem_singleton.mpr (by decide)
  afterBlank := List.forall_mem_nil _
  visible := List.forall_mem_cons.mpr ⟨by decide, List.forall_mem_singleton.mpr (by decide)⟩

theorem negotiates_in_one_field :
    Selection (requestOf [⟨p1, [p2]⟩]) [⟨p1, [p2]⟩] ["p3".toList, "p2".toList] ∧
      FirstDecides [⟨p1, [p2]⟩] ["p3".toList, "p2".toList] := by
  have hcheck : checkRequest (requestOf [⟨p1, [p2]⟩]) = .ok (listHttp.hashKey []) := by decide
  exact ⟨negotiates_iff_first_decides listHttp_getsFirst hcheck (by decide) _,
    .inl ⟨_, rfl, "p2".toList, by decide, by decide⟩⟩

/-- The second of two header fields is not read. -/
theorem second_field_is_missed : ¬∀ (req : HttpRequest listHttp) (key : HeaderValue)
    (fields : List ProtocolField) (protocols : List Text), checkRequest req = .ok key →
    listHttp.getAll req.headers .secWebSocketProtocol = fields.map ProtocolField.value →
    ∃ response, Negotiates req fields protocols response := by
  intro hall
  obtain ⟨response, haccepted, hanswer, _⟩ := hall (requestOf [⟨p1, []⟩, ⟨p2, []⟩])
    (listHttp.hashKey []) [⟨p1, []⟩, ⟨p2, []⟩] ["p2".toList] (by decide) (by decide)
  have hnone : (handshakeWithProtocols (requestOf [⟨p1, []⟩, ⟨p2, []⟩])
      ["p2".toList]).toOption.bind ResponseBuilder.protocol = none := by decide
  rw [haccepted] at hnone
  have hcommon : firstCommon [⟨p1, []⟩, ⟨p2, []⟩] ["p2".toList] = some "p2".toList := by decide
  rw [hcommon] at hanswer
  cases hanswer.symm.trans hnone

end Results

end ActixSend.WebSocket
