import ActixSend.Text
import ActixSend.Macros.Syntax

/-! # The `message` attribute

`actor_mod` takes the result type of a message out of the text of its
attribute, and whether the message is blocking. Types and their parser are those
of `syn`, so both are parameters.
-/

namespace ActixSend.Macros

set_option autoImplicit false

/-- An attribute; `tokens` is what `to_string` makes of them. -/
structure Attribute where
  path : Path
  tokens : Text

/-- What `ItemStruct` and `ItemType` have in common. -/
structure Decl (Generics : Type) where
  ident : Ident
  generics : Generics
  attrs : List Attribute

inductive Item (Generics : Type)
  | struct (item : Decl Generics)
  | type (item : Decl Generics)
  | other

def isIdent (attrs : List Attribute) (identStr : Ident) : Option Attribute :=
  attrs.find? fun attr => match attr.path.segments.head? with
    | some seg => seg.ident == identStr
    | none => false

section Reader
variable {T Generics : Type} (parseStr : Text → Option T)

/-- The type in the text of the attribute; `none` where the macro panics. -/
def readMessage (tokens : Text) : Option (T × Bool) :=
  (tokens.splitOn '=').getLast?.bind fun last =>
    let test : Text := (last.filter fun char => char != '"' && char != ' ').dropLast
    let isBlocking := test.contains "blocking".toList
    let test := if isBlocking then test.rdrop 9 else test
    (parseStr test).map fun resultTyp => (resultTyp, isBlocking)

/-- What the loop over the items of the module collects. -/
structure Collected (T Generics : Type) where
  messageParams : List (Ident × Generics × T × Bool)
  attributes : List Attribute
  actorIdentStr : Ident

namespace Collected

variable (c : Collected T Generics)

/-- The `message` attribute of an item, which then loses all attributes. -/
def addMessage (item : Decl Generics) : Option (Collected T Generics × Decl Generics) :=
  match isIdent item.attrs "message" with
  | none => some (c, item)
  | some attr => (readMessage parseStr attr.tokens).map fun (resultTyp, isBlocking) =>
    ({ c with
      messageParams := c.messageParams ++ [(item.ident, item.generics, resultTyp, isBlocking)]
      attributes := c.attributes ++ item.attrs }, { item with attrs := [] })

def addActor (item : Decl Generics) : Collected T Generics :=
  match isIdent item.attrs "actor" with
  | none => c
  | some _ => { c with actorIdentStr := item.ident }

def addItem : Item Generics → Option (Collected T Generics × Item Generics)
  | .struct item =>
    (c.addMessage parseStr item).map fun (c, item) => (c.addActor item, .struct item)
  | .type item =>
    (c.addMessage parseStr item).map fun (c, item) => (c.addActor item, .type item)
  | .other => some (c, .other)

def addItems : List (Item Generics) → Collected T Generics →
    Option (Collected T Generics × List (Item Generics))
  | [], c => some (c, [])
  | item :: items, c => do
    let (c, item) ← c.addItem parseStr item
    let (c, items) ← c.addItems items
    some (c, item :: items)

def removeMessage : Collected T Generics :=
  { c with attributes := c.attributes.filter fun attr => match attr.path.segments.head? with
    | some seg => seg.ident != "message"
    | none => true }

end Collected

def readItems (items : List (Item Generics)) :
    Option (Collected T Generics × List (Item Generics)) :=
  (Collected.addItems parseStr items ⟨[], [], ""⟩).map fun (c, items) => (c.removeMessage, items)

end Reader

/-- `(result = "T")` or `(result = "T", blocking)`, in pieces. -/
def arguments (t : Text) (blocking : Bool) : List Text :=
  ["(".toList, "result".toList] ++ "=".toList :: ('"' :: (t ++ ['"'])) ::
    if blocking then [",".toList, "blocking".toList, ")".toList] else [")".toList]

/-- White space between tokens, Rust's `Pattern_White_Space`. -/
def isSpacing (c : Char) : Bool :=
  let n := c.toNat
  9 ≤ n && n ≤ 13 || n == 0x20 || n == 0x85 || n == 0x200E || n == 0x200F || n == 0x2028 ||
    n == 0x2029

/-- The pieces as they stand, with white space between them. -/
inductive Renders : List Text → List Text → Text → Prop
  | last (piece : Text) : Renders [piece] [] piece
  | cons (piece gap : Text) {pieces gaps : List Text} {text : Text}
      (hgap : gap.all isSpacing = true) :
      Renders pieces gaps text → Renders (piece :: pieces) (gap :: gaps) (piece ++ (gap ++ text))

/-- Nothing but blanks stands before and after `blocking`. -/
def Blank (gaps : List Text) : Prop := ∀ gap ∈ gaps.drop 4, ∀ c ∈ gap, c = ' '

def kept (t : Text) : Text := (t.rtakeWhile (· != '=')).filter (· != ' ')

/-- What is left of white space without its blanks. -/
def breaks (gap : Text) : Text := gap.filter (· != ' ')

/-- What nine pops leave behind the type where not all is blank around `blocking`. -/
def behind (gaps : List Text) : Text :=
  breaks (gaps.getD 3 []) ++
    ',' :: (breaks (gaps.getD 4 []) ++ "blocking".toList ++ breaks (gaps.getD 5 [])).rdrop 9

namespace Item

variable {Generics : Type}

def decl : Item Generics → Option (Decl Generics)
  | struct item => some item
  | type item => some item
  | other => none

end Item

section Results
variable {T Generics : Type} (parseStr : Text → Option T)

/-- What there is to know of `syn`. No type has a comma outside its brackets, and
one in a block comment would need the comment's end after it. -/
structure ParsesTypes : Prop where
  spacing : ∀ before t after : Text, before.all isSpacing = true →
    after.all isSpacing = true → parseStr (before ++ (t ++ after)) = parseStr t
  comma : ∀ t rest : Text, t.contains "//".toList = false →
    (∀ c ∈ rest, isSpacing c = true ∨ c ∈ "blocking".toList) →
    parseStr (t ++ ',' :: rest) = none

/-- The surgery leaves the type as it is. -/
structure Survives (t : Text) (blocking : Bool) (gaps : List Text) : Prop where
  parsed : parseStr (kept t) = parseStr t
  unnamed : blocking = false → Text.contains (kept t) "blocking".toList = false
  blank : blocking = true → Blank gaps

/-- A line comment in the type keeps from the parser what the pops leave behind it. -/
structure Hidden (t : Text) (blocking : Bool) (gaps : List Text) : Prop where
  broken : blocking = true ∧ ¬Blank gaps
  comment : Text.contains (kept t) "//".toList = true
  parsed : parseStr (kept t ++ behind gaps) = parseStr t

/-- Whatever was collected before, `item` adds its name with `ty` and `blocking`. -/
def Recovers (item : Item Generics) (ty : T) (blocking : Bool) : Prop :=
  ∃ d, item.decl = some d ∧ ∀ c : Collected T Generics, ∃ c' item',
    c.addItem parseStr item = some (c', item') ∧
      c'.messageParams = c.messageParams ++ [(d.ident, d.generics, ty, blocking)]

variable {parseStr}

theorem breaks_all {gap : Text} (hgap : gap.all isSpacing = true) :
    (breaks gap).all isSpacing = true :=
  List.all_eq_true.mpr fun c hc => List.all_eq_true.mp hgap c (List.mem_filter.mp hc).1

theorem breaks_eq_nil_iff {gap : Text} : breaks gap = [] ↔ ∀ c ∈ gap, c = ' ' := by
  simp [breaks, List.filter_eq_nil_iff]

theorem filter_gap {gap : Text} (hgap : gap.all isSpacing = true) :
    gap.filter (fun char => char != '"' && char != ' ') = breaks gap := by
  apply List.filter_congr
  intro c hc
  have hne : c ≠ '"' := by
    rintro rfl
    exact absurd (List.all_eq_true.mp hgap _ hc) (by decide)
  simp [hne]

theorem filter_type {t : Text} (hquote : '"' ∉ t) :
    ('"' :: (t ++ ['"'])).filter (fun char => char != '"' && char != ' ') =
      t.filter (· != ' ') := by
  have ht : (t.filter fun char => char != '"' && char != ' ') = t.filter (· != ' ') := by
    apply List.filter_congr
    intro c hc
    have hne : c ≠ '"' := fun h => hquote (h ▸ hc)
    simp [hne]
  simp [ht, List.filter_append]

theorem ne_of_spacing {gap : Text} (hgap : gap.all isSpacing = true) :
    ∀ c ∈ gap, (c != '=') = true := by
  intro c hc
  rw [bne_iff_ne]
  rintro rfl
  exact absurd (List.all_eq_true.mp hgap _ hc) (by decide)

theorem kept_eq (t : Text) : (t.filter (· != ' ')).rtakeWhile (· != '=') = kept t := by
  rw [kept, Text.rtakeWhile_filter_comm]
  intro c hc
  obtain rfl : c = '=' := by simpa using hc
  rfl

theorem filter_literal {t gap : Text} (hquote : '"' ∉ t) (hgap : gap.all isSpacing = true)
    (rest : Text) (hrest : ∀ c ∈ rest, (c != '=') = true) :
    ∃ before, before.all isSpacing = true ∧
      ((gap ++ (('"' :: (t ++ ['"'])) ++ rest)).rtakeWhile (· != '=')).filter
          (fun char => char != '"' && char != ' ') =
        before ++ (kept t ++ rest.filter fun char => char != '"' && char != ' ') := by
  have hcomm : ∀ c : Char, (c != '=') = false → (c != '"' && c != ' ') = true := by
    intro c hc
    obtain rfl : c = '=' := by simpa using hc
    rfl
  have hfiltered : ∀ c ∈ rest.filter (fun char => char != '"' && char != ' '),
      (c != '=') = true := fun c hc => hrest c (List.mem_filter.mp hc).1
  obtain ⟨before, hbefore, heq⟩ := Text.exists_rtakeWhile_append
    (t := t.filter (· != ' ')) (ne_of_spacing (breaks_all hgap))
  refine ⟨before, ?_, ?_⟩
  · rcases hbefore with rfl | rfl
    · exact breaks_all hgap
    · rfl
  · rw [Text.rtakeWhile_filter_comm hcomm, List.filter_append, List.filter_append, filter_gap hgap,
      filter_type hquote, ← List.append_assoc, Text.rtakeWhile_append hfiltered, heq, kept_eq,
      List.append_assoc]

def closing (blocking : Bool) (gaps : List Text) : Text :=
  breaks (gaps.getD 3 []) ++
    if blocking then
      ',' :: (breaks (gaps.getD 4 []) ++ "blocking".toList ++ breaks (gaps.getD 5 []))
    else []

theorem Renders.gaps {ps gaps : List Text} {text : Text} (h : Renders ps gaps text) :
    gaps.length + 1 = ps.length ∧ ∀ gap ∈ gaps, gap.all isSpacing = true := by
  induction h with
  | last => exact ⟨rfl, List.forall_mem_nil _⟩
  | cons piece gap hgap _ ih =>
    exact ⟨congrArg (· + 1) ih.1, List.forall_mem_cons.mpr ⟨hgap, ih.2⟩⟩

theorem Renders.single {piece text : Text} {gaps : List Text} (h : Renders [piece] gaps text) :
    gaps = [] ∧ text = piece := by
  cases h with
  | last => exact ⟨rfl, rfl⟩
  | cons _ _ _ h => cases h

theorem Renders.getD_all {ps gaps : List Text} {text : Text} (h : Renders ps gaps text) (k : Nat) :
    (gaps.getD k []).all isSpacing = true := by
  rw [List.getD_eq_getElem?_getD]
  cases hk : gaps[k]? with
  | none => rfl
  | some gap => exact h.gaps.2 gap (List.mem_of_getElem? hk)

theorem last_segment {t text : Text} {blocking : Bool} {gaps : List Text} (hquote : '"' ∉ t)
    (h : Renders (arguments t blocking) gaps text) :
    ∃ last before, (text.splitOn '=').getLast? = some last ∧ before.all isSpacing = true ∧
      (last.filter fun char => char != '"' && char != ' ') =
        before ++ (kept t ++ (closing blocking gaps ++ [')'])) := by
  cases h with
  | cons _ gap₀ _ h =>
  cases h with
  | cons _ gap₁ _ h =>
  cases h with
  | cons _ gap₂ hgap₂ h =>
  rename_i rest
  have hafter : ("(".toList ++ (gap₀ ++ ("result".toList ++ (gap₁ ++ ("=".toList ++
      (gap₂ ++ rest)))))).rtakeWhile (· != '=') = (gap₂ ++ rest).rtakeWhile (· != '=') := by
    have hsplit := Text.rtakeWhile_after ("(".toList ++ (gap₀ ++ ("result".toList ++ gap₁)))
      (gap₂ ++ rest) '='
    simp only [List.append_assoc] at hsplit
    exact hsplit
  have hlast := Text.getLast?_splitOn ("(".toList ++ (gap₀ ++ ("result".toList ++ (gap₁ ++
    ("=".toList ++ (gap₂ ++ rest)))))) '='
  rw [hafter] at hlast
  cases blocking with
  | false =>
    cases h with
    | cons _ gap₃ hgap₃ h =>
    obtain ⟨rfl, rfl⟩ := h.single
    obtain ⟨before, hbefore, heq⟩ := filter_literal hquote hgap₂ (gap₃ ++ ")".toList)
      (List.forall_mem_append.mpr ⟨ne_of_spacing hgap₃, by simp⟩)
    refine ⟨_, before, hlast, hbefore, heq.trans ?_⟩
    rw [List.filter_append, filter_gap hgap₃]
    simp [closing]
  | true =>
    cases h with
    | cons _ gap₃ hgap₃ h =>
    cases h with
    | cons _ gap₄ hgap₄ h =>
    cases h with
    | cons _ gap₅ hgap₅ h =>
    obtain ⟨rfl, rfl⟩ := h.single
    obtain ⟨before, hbefore, heq⟩ := filter_literal hquote hgap₂
      (gap₃ ++ (",".toList ++ (gap₄ ++ ("blocking".toList ++ (gap₅ ++ ")".toList))))) (by
        simp only [List.forall_mem_append]
        exact ⟨ne_of_spacing hgap₃, by simp, ne_of_spacing hgap₄, by simp,
          ne_of_spacing hgap₅, by simp⟩)
    refine ⟨_, before, hlast, hbefore, heq.trans ?_⟩
    simp only [List.filter_append, filter_gap hgap₃, filter_gap hgap₄, filter_gap hgap₅]
    simp [closing]

theorem blank_iff {t text : Text} {gaps : List Text} (h : Renders (arguments t true) gaps text) :
    Blank gaps ↔ breaks (gaps.getD 4 []) = [] ∧ breaks (gaps.getD 5 []) = [] := by
  have hlength : gaps.length = 6 := Nat.succ.inj h.gaps.1
  match gaps, hlength with
  | [_, _, _, _, before, after], _ => simp [Blank, breaks_eq_nil_iff]

theorem readMessage_eq (parseStr : Text → Option T) {t text : Text} {blocking : Bool}
    {gaps : List Text} (hquote : '"' ∉ t) (h : Renders (arguments t blocking) gaps text) :
    ∃ before, before.all isSpacing = true ∧ readMessage parseStr text =
      if Text.contains (before ++ (kept t ++ closing blocking gaps)) "blocking".toList then
        (parseStr ((before ++ (kept t ++ closing blocking gaps)).rdrop 9)).map fun ty => (ty, true)
      else (parseStr (before ++ (kept t ++ closing blocking gaps))).map fun ty => (ty, false) := by
  obtain ⟨last, before, hlast, hbefore, htest⟩ := last_segment hquote h
  refine ⟨before, hbefore, ?_⟩
  have hpop : (before ++ (kept t ++ (closing blocking gaps ++ [')']))).dropLast =
      before ++ (kept t ++ closing blocking gaps) := by
    rw [← List.append_assoc, ← List.append_assoc, List.dropLast_concat, List.append_assoc]
  simp only [readMessage, hlast, Option.bind_some, htest, hpop]
  cases Text.contains (before ++ (kept t ++ closing blocking gaps)) "blocking".toList <;> rfl

theorem readMessage_plain (hsyn : ParsesTypes parseStr) {t text : Text} {gaps : List Text}
    (hquote : '"' ∉ t) (h : Renders (arguments t false) gaps text) {ty : T} :
    readMessage parseStr text = some (ty, false) ↔
      parseStr (kept t) = some ty ∧ Text.contains (kept t) "blocking".toList = false := by
  obtain ⟨before, hbefore, hread⟩ := readMessage_eq parseStr hquote h
  have hclosing : closing false gaps = breaks (gaps.getD 3 []) := by
    rw [closing, if_neg (by decide), List.append_nil]
  have hafter := breaks_all (h.getD_all 3)
  rw [hread, hclosing, Text.contains_spaced (by simp [isSpacing]) hbefore hafter,
    hsyn.spacing _ _ _ hbefore hafter]
  cases Text.contains (kept t) "blocking".toList <;> simp

theorem readMessage_blank (hsyn : ParsesTypes parseStr) {t text : Text} {gaps : List Text}
    (hquote : '"' ∉ t) (h : Renders (arguments t true) gaps text) (hblank : Blank gaps) :
    readMessage parseStr text = (parseStr (kept t)).map fun ty => (ty, true) := by
  obtain ⟨before, hbefore, hread⟩ := readMessage_eq parseStr hquote h
  obtain ⟨hnone, hnone'⟩ := (blank_iff h).mp hblank
  have hclosing : closing true gaps = breaks (gaps.getD 3 []) ++ ",blocking".toList := by
    rw [closing, hnone, hnone', if_pos rfl]
    rfl
  have hcontains : Text.contains (before ++ (kept t ++ closing true gaps)) "blocking".toList =
      true := by
    rw [hclosing]
    exact decide_eq_true ⟨before ++ (kept t ++ (breaks (gaps.getD 3 []) ++ [','])), [], by simp⟩
  have hnine : (before ++ (kept t ++ closing true gaps)).rdrop 9 =
      before ++ (kept t ++ breaks (gaps.getD 3 [])) := by
    rw [hclosing, ← List.append_assoc, ← List.append_assoc, Text.rdrop_append (by decide),
      show ",blocking".toList.rdrop 9 = [] from rfl, List.append_nil, List.append_assoc]
  rw [hread, if_pos hcontains, hnine, hsyn.spacing _ _ _ hbefore (breaks_all (h.getD_all 3))]

/-- The comma before `blocking` is left to the parser. -/
theorem readMessage_broken (hsyn : ParsesTypes parseStr) {t text : Text} {gaps : List Text}
    (hquote : '"' ∉ t) (h : Renders (arguments t true) gaps text) (hblank : ¬Blank gaps) :
    readMessage parseStr text = (parseStr (kept t ++ behind gaps)).map fun ty => (ty, true) := by
  obtain ⟨before, hbefore, hread⟩ := readMessage_eq parseStr hquote h
  generalize hword : breaks (gaps.getD 4 []) ++ "blocking".toList ++ breaks (gaps.getD 5 []) = word
  have hclosing : before ++ (kept t ++ closing true gaps) =
      (before ++ (kept t ++ breaks (gaps.getD 3 []))) ++ ([','] ++ word) := by
    simp [closing, ← hword]
  have hlong : 9 ≤ word.length := by
    have hne : breaks (gaps.getD 4 []) ≠ [] ∨ breaks (gaps.getD 5 []) ≠ [] := by
      rw [← not_and_or]
      exact fun hnone => hblank ((blank_iff h).mpr hnone)
    rw [← hword, List.length_append, List.length_append, show "blocking".toList.length = 8 from rfl]
    rcases hne with hne | hne <;> have hpos := List.length_pos_iff.mpr hne <;> omega
  have hcontains : Text.contains (before ++ (kept t ++ closing true gaps)) "blocking".toList =
      true := by
    rw [hclosing, ← hword]
    exact decide_eq_true ⟨before ++ (kept t ++ breaks (gaps.getD 3 [])) ++ [','] ++
      breaks (gaps.getD 4 []), breaks (gaps.getD 5 []), by simp⟩
  have hnine : (before ++ (kept t ++ closing true gaps)).rdrop 9 =
      before ++ ((kept t ++ behind gaps) ++ []) := by
    rw [hclosing, ← List.append_assoc, Text.rdrop_append hlong, behind, hword]
    simp
  rw [hread, if_pos hcontains, hnine, hsyn.spacing _ _ _ hbefore rfl]

theorem parse_behind (hsyn : ParsesTypes parseStr) {t text : Text} {gaps : List Text}
    (h : Renders (arguments t true) gaps text)
    (hcomment : Text.contains (kept t) "//".toList = false) :
    parseStr (kept t ++ behind gaps) = none := by
  have hslashes : ∀ c ∈ "//".toList, isSpacing c = false := by simp [isSpacing]
  have hnil : ([] : Text).all isSpacing = true := rfl
  have hspaced : Text.contains (kept t ++ breaks (gaps.getD 3 [])) "//".toList = false :=
    (Text.contains_spaced hslashes hnil (breaks_all (h.getD_all 3))).trans hcomment
  rw [behind, ← List.append_assoc]
  refine hsyn.comma _ _ hspaced fun c hc => ?_
  rcases List.mem_append.mp (List.mem_of_mem_take hc) with hmem | hmem
  · rcases List.mem_append.mp hmem with hmem | hmem
    · exact .inl (List.all_eq_true.mp (breaks_all (h.getD_all 4)) c hmem)
    · exact .inr hmem
  · exact .inl (List.all_eq_true.mp (breaks_all (h.getD_all 5)) c hmem)

theorem Collected.addMessage_of_read {c : Collected T Generics} {d : Decl Generics}
    {attr : Attribute} (hattr : isIdent d.attrs "message" = some attr) {ty : T} {blocking : Bool} :
    (∃ c' d', c.addMessage parseStr d = some (c', d') ∧
      c'.messageParams = c.messageParams ++ [(d.ident, d.generics, ty, blocking)]) ↔
      readMessage parseStr attr.tokens = some (ty, blocking) := by
  simp only [addMessage, hattr]
  constructor
  · rintro ⟨c', d', hadd, hparams⟩
    obtain ⟨⟨ty', blocking'⟩, hread, heq⟩ := Option.map_eq_some_iff.mp hadd
    simp only [Prod.mk.injEq] at heq
    obtain ⟨rfl, -⟩ := heq
    have hlast := List.append_cancel_left hparams
    simp only [List.cons.injEq, Prod.mk.injEq, and_true, true_and] at hlast
    rw [hread, hlast.1, hlast.2]
  · intro hread
    rw [hread]
    exact ⟨_, _, rfl, rfl⟩

theorem Collected.addActor_messageParams (c : Collected T Generics) (d : Decl Generics) :
    (c.addActor d).messageParams = c.messageParams := by
  rw [addActor]
  cases isIdent d.attrs "actor" <;> rfl

/-- Structs and type aliases are read alike. -/
theorem recovers_iff_read {item : Item Generics} {d : Decl Generics} (hdecl : item.decl = some d)
    {attr : Attribute} (hattr : isIdent d.attrs "message" = some attr) {ty : T} {blocking : Bool} :
    Recovers parseStr item ty blocking ↔
      readMessage parseStr attr.tokens = some (ty, blocking) := by
  have hadd : ∀ c : Collected T Generics, (∃ c' item', c.addItem parseStr item = some (c', item') ∧
      c'.messageParams = c.messageParams ++ [(d.ident, d.generics, ty, blocking)]) ↔
      ∃ c' d', c.addMessage parseStr d = some (c', d') ∧
        c'.messageParams = c.messageParams ++ [(d.ident, d.generics, ty, blocking)] := by
    intro c
    cases item with
    | struct item =>
      cases hdecl
      simp only [Collected.addItem, Option.map_eq_some_iff, Prod.exists, Prod.mk.injEq]
      constructor
      · rintro ⟨_, _, ⟨c', d', hmessage, rfl, rfl⟩, hparams⟩
        exact ⟨c', d', hmessage, (c'.addActor_messageParams d').symm.trans hparams⟩
      · rintro ⟨c', d', hmessage, hparams⟩
        exact ⟨_, _, ⟨c', d', hmessage, rfl, rfl⟩, (c'.addActor_messageParams d').trans hparams⟩
    | type item =>
      cases hdecl
      simp only [Collected.addItem, Option.map_eq_some_iff, Prod.exists, Prod.mk.injEq]
      constructor
      · rintro ⟨_, _, ⟨c', d', hmessage, rfl, rfl⟩, hparams⟩
        exact ⟨c', d', hmessage, (c'.addActor_messageParams d').symm.trans hparams⟩
      · rintro ⟨c', d', hmessage, hparams⟩
        exact ⟨_, _, ⟨c', d', hmessage, rfl, rfl⟩, (c'.addActor_messageParams d').trans hparams⟩
    | other => cases hdecl
  constructor
  · rintro ⟨d', hdecl', hall⟩
    cases hdecl.symm.trans hdecl'
    exact (Collected.addMessage_of_read hattr).mp ((hadd ⟨[], [], ""⟩).mp (hall _))
  · intro hread
    exact ⟨d, hdecl, fun c => (hadd c).mpr ((Collected.addMessage_of_read hattr).mpr hread)⟩

theorem survives_of_plain {t : Text} {blocking : Bool} {gaps : List Text} (heq : '=' ∉ t)
    (hspace : ' ' ∉ t) (hnamed : blocking = false → Text.contains t "blocking".toList = false)
    (hblank : blocking = true → Blank gaps) : Survives parseStr t blocking gaps := by
  have hkept : kept t = t := by
    have hall : t.rtakeWhile (· != '=') = t := by
      rw [List.rtakeWhile_eq_self_iff]
      intro c hc
      simpa using fun h : c = '=' => heq (h ▸ hc)
    rw [kept, hall, List.filter_eq_self]
    intro c hc
    simpa using fun h : c = ' ' => hspace (h ▸ hc)
  refine ⟨?_, ?_, hblank⟩
  · rw [hkept]
  · rwa [hkept]

/-- Where the reader gets a type and its flag, and where not. -/
theorem reader_recovers_iff (hsyn : ParsesTypes parseStr) {t : Text} {ty : T}
    (hparse : parseStr t = some ty) (hquote : '"' ∉ t) {blocking : Bool} {item : Item Generics}
    {d : Decl Generics} (hdecl : item.decl = some d) {attr : Attribute}
    (hattr : isIdent d.attrs "message" = some attr) {gaps : List Text}
    (hrenders : Renders (arguments t blocking) gaps attr.tokens) :
    Recovers parseStr item ty blocking ↔
      Survives parseStr t blocking gaps ∨ Hidden parseStr t blocking gaps := by
  rw [recovers_iff_read hdecl hattr]
  cases blocking with
  | true =>
    by_cases hblank : Blank gaps
    · rw [readMessage_blank hsyn hquote hrenders hblank, Option.map_eq_some_iff]
      constructor
      · rintro ⟨ty', hty, heq⟩
        cases heq
        exact .inl ⟨hty.trans hparse.symm, nofun, fun _ => hblank⟩
      · rintro (hsurvives | hhidden)
        · exact ⟨ty, hsurvives.parsed.trans hparse, rfl⟩
        · exact absurd hblank hhidden.broken.2
    · rw [readMessage_broken hsyn hquote hrenders hblank, Option.map_eq_some_iff]
      constructor
      · rintro ⟨ty', hty, heq⟩
        cases heq
        cases hcomment : Text.contains (kept t) "//".toList with
        | false => cases (parse_behind hsyn hrenders hcomment).symm.trans hty
        | true => exact .inr ⟨⟨rfl, hblank⟩, hcomment, hty.trans hparse.symm⟩
      · rintro (hsurvives | hhidden)
        · exact absurd (hsurvives.blank rfl) hblank
        · exact ⟨ty, hhidden.parsed.trans hparse, rfl⟩
  | false =>
    rw [readMessage_plain hsyn hquote hrenders]
    constructor
    · rintro ⟨hkept, hnamed⟩
      exact .inl ⟨hkept.trans hparse.symm, fun _ => hnamed, nofun⟩
    · rintro (hsurvives | hhidden)
      · exact ⟨hsurvives.parsed.trans hparse, hsurvives.unnamed rfl⟩
      · cases hhidden.broken.1

end Results

section Module
variable {T Generics : Type} {parseStr : Text → Option T}

def Yields (parseStr : Text → Option T) (item : Item Generics)
    (param : Ident × Generics × T × Bool) : Prop :=
  item.decl.map (fun d => (d.ident, d.generics)) = some (param.1, param.2.1) ∧
    Recovers parseStr item param.2.2.1 param.2.2.2

theorem Collected.addItems_yields {items : List (Item Generics)}
    {params : List (Ident × Generics × T × Bool)}
    (h : List.Forall₂ (Yields parseStr) items params) (c : Collected T Generics) :
    ∃ c' items', c.addItems parseStr items = some (c', items') ∧
      c'.messageParams = c.messageParams ++ params := by
  induction h generalizing c with
  | nil => exact ⟨c, [], rfl, (List.append_nil _).symm⟩
  | @cons item param items params hyields _ ih =>
    obtain ⟨hnames, d, hdecl, hall⟩ := hyields
    obtain ⟨c₁, item', hitem, hparam⟩ := hall c
    obtain ⟨c', items', hitems, hparams⟩ := ih c₁
    refine ⟨c', item' :: items', by simp [addItems, hitem, hitems], ?_⟩
    rw [hdecl, Option.map_some, Option.some_inj, Prod.mk.injEq] at hnames
    rw [hparams, hparam, hnames.1, hnames.2, List.append_assoc, List.singleton_append]

theorem readItems_yields {items : List (Item Generics)}
    {params : List (Ident × Generics × T × Bool)}
    (h : List.Forall₂ (Yields parseStr) items params) :
    ∃ c items', readItems parseStr items = some (c, items') ∧ c.messageParams = params := by
  obtain ⟨c, items', hitems, hparams⟩ := Collected.addItems_yields h ⟨[], [], ""⟩
  exact ⟨c.removeMessage, items', by simp [readItems, hitems], hparams⟩

end Module

/-- Names, and references to a name with a lifetime. -/
inductive NameOrRef
  | name (ident : Text)
  | ref (lifetime ident : Text)
  deriving DecidableEq

def isName (t : Text) : Bool :=
  t != [] && t.all fun c => c.isAlphanum || c == '_'

def parseNameOrRef (t : Text) : Option NameOrRef :=
  match t.trimMatches isSpacing with
  | '&' :: '\'' :: rest => match rest.splitOn ' ' with
    | [lifetime, ident] =>
      if isName lifetime && isName ident then some (.ref lifetime ident) else none
    | _ => none
  | t => if isName t then some (.name t) else none

theorem isName_comma {t : Text} (h : ',' ∈ t) : isName t = false := by
  rw [isName, Bool.and_eq_false_iff]
  right
  rw [List.all_eq_false]
  exact ⟨',', h, by decide⟩

theorem parseNameOrRef_comma {t : Text} (h : ',' ∈ t.trimMatches isSpacing) :
    parseNameOrRef t = none := by
  unfold parseNameOrRef
  split
  · rename_i rest heq
    have hrest : ',' ∈ rest := by
      rw [heq] at h
      simpa using h
    split
    · rename_i lifetime ident hsplit
      have hparts : ',' ∈ lifetime ∨ ',' ∈ ident := by
        have hjoin : [' '].intercalate (rest.splitOn ' ') = rest := List.intercalate_splitOn ' '
        rw [← hjoin, hsplit] at hrest
        simpa [List.intercalate_cons_cons] using hrest
      rcases hparts with h | h <;> simp [isName_comma h]
    · rfl
  · rw [if_neg (by simp [isName_comma h])]

theorem parseNameOrRef_parsesTypes : ParsesTypes parseNameOrRef := by
  constructor
  · intro before t after hbefore hafter
    rw [parseNameOrRef, Text.trimMatches_spaced t hbefore hafter, parseNameOrRef]
  · intro t rest _ _
    apply parseNameOrRef_comma
    exact Text.mem_trimMatches (by decide) (List.mem_append_right t List.mem_cons_self)

def messageAttr (tokens : Text) : Attribute := ⟨typePathFromIdents ["message"], tokens⟩

/-- A line break after the type does no harm. -/
theorem reader_recovers_usize :
    Recovers parseNameOrRef (.type ⟨"Message2", (), [messageAttr
      "(result = \"usize\"\n, blocking)".toList]⟩) (.name "usize".toList) true ↔
      Survives parseNameOrRef "usize".toList true [[], [' '], [' '], ['\n'], [' '], []] ∨
        Hidden parseNameOrRef "usize".toList true [[], [' '], [' '], ['\n'], [' '], []] := by
  have hrenders : Renders (arguments "usize".toList true) [[], [' '], [' '], ['\n'], [' '], []]
      "(result = \"usize\"\n, blocking)".toList :=
    .cons _ _ rfl (.cons _ _ rfl (.cons _ _ rfl (.cons _ _ rfl (.cons _ _ rfl (.cons _ _ rfl
      (.last _))))))
  exact reader_recovers_iff parseNameOrRef_parsesTypes (by decide) (by decide) rfl rfl hrenders

/-- The space of a reference is dropped. -/
theorem static_reference_is_lost : ¬∀ (t : Text) (ty : NameOrRef) (blocking : Bool)
    (item : Item Unit) (d : Decl Unit) (attr : Attribute) (gaps : List Text),
    parseNameOrRef t = some ty → '"' ∉ t → item.decl = some d →
    isIdent d.attrs "message" = some attr → Renders (arguments t blocking) gaps attr.tokens →
    Recovers parseNameOrRef item ty blocking := by
  intro hall
  have hrenders : Renders (arguments "&'static str".toList false) [[], [' '], [' '], []]
      "(result = \"&'static str\")".toList :=
    .cons _ _ rfl (.cons _ _ rfl (.cons _ _ rfl (.cons _ _ rfl (.last _))))
  have hrecovers := hall "&'static str".toList (.ref "static".toList "str".toList) false
    (.struct ⟨"Message1", (), [messageAttr "(result = \"&'static str\")".toList]⟩) _ _
    [[], [' '], [' '], []] (by decide) (by decide) rfl rfl hrenders
  have hread := (recovers_iff_read rfl rfl).mp hrecovers
  have hpanics : readMessage parseNameOrRef "(result = \"&'static str\")".toList = none := by decide
  cases hpanics.symm.trans hread

end ActixSend.Macros
