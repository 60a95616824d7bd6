import Mathlib.Data.List.DropRight
import Mathlib.Data.List.Infix

/-! # Text

The functions of the standard library's `str` that the sources use, on texts
as lists of their characters.
-/

namespace ActixSend

set_option autoImplicit false

abbrev Text := List Char

/-- `char::is_whitespace`, the `White_Space` property. -/
def isWhitespace (c : Char) : Bool :=
  let n := c.toNat
  9 ≤ n && n ≤ 13 || n == 0x20 || n == 0x85 || n == 0xA0 || n == 0x1680 ||
    0x2000 ≤ n && n ≤ 0x200A || n == 0x2028 || n == 0x2029 || n == 0x202F || n == 0x205F ||
    n == 0x3000

namespace Text

def trimMatches (p : Char → Bool) (t : Text) : Text := (t.dropWhile p).rdropWhile p

def trim (t : Text) : Text := (t.dropWhile isWhitespace).rdropWhile isWhitespace

def toAsciiLowercase (t : Text) : Text :=
  t.map fun c => if 'A' ≤ c ∧ c ≤ 'Z' then Char.ofNat (c.toNat + 32) else c

def contains (t part : Text) : Bool := decide (part <:+: t)

theorem trimStart_kept {t : Text} (ht : ∀ c ∈ t, isWhitespace c = false) (hne : t ≠ [])
    (u : Text) : (t ++ u).dropWhile isWhitespace = t ++ u := by
  cases t with
  | nil => exact absurd rfl hne
  | cons c t => exact List.dropWhile_cons_of_neg (by simp [ht c List.mem_cons_self])

theorem trimEnd_padded {t after : Text} (hafter : ∀ c ∈ after, isWhitespace c = true)
    (ht : ∀ c ∈ t, isWhitespace c = false) : (t ++ after).rdropWhile isWhitespace = t := by
  rw [List.rdropWhile, List.reverse_append, List.dropWhile_append_of_pos (by simpa using hafter)]
  cases hrev : t.reverse with
  | nil =>
    rw [List.reverse_eq_nil_iff] at hrev
    rw [hrev]
    rfl
  | cons c r =>
    have hkept := trimStart_kept (t := t.reverse) (by simpa using ht) (by simp [hrev]) []
    rw [List.append_nil] at hkept
    rw [← hrev, hkept, List.reverse_reverse]

theorem trim_padded {before t after : Text} (hbefore : ∀ c ∈ before, isWhitespace c = true)
    (hafter : ∀ c ∈ after, isWhitespace c = true) (ht : ∀ c ∈ t, isWhitespace c = false) :
    trim (before ++ (t ++ after)) = t := by
  rw [trim, List.dropWhile_append_of_pos hbefore]
  by_cases hne : t = []
  · subst hne
    rw [List.nil_append, List.dropWhile_eq_nil_iff.mpr hafter]
    rfl
  · rw [trimStart_kept ht hne, trimEnd_padded hafter ht]

theorem trimMatches_spaced {p : Char → Bool} (t : Text) {before after : Text}
    (hbefore : before.all p = true) (hafter : after.all p = true) :
    trimMatches p (before ++ (t ++ after)) = trimMatches p t := by
  rw [List.all_eq_true] at hbefore hafter
  rw [trimMatches, trimMatches, List.dropWhile_append_of_pos hbefore, List.dropWhile_append]
  split
  · rename_i hnil
    rw [List.isEmpty_iff.mp hnil, List.dropWhile_eq_nil_iff.mpr hafter]
  · rw [List.rdropWhile, List.reverse_append, List.dropWhile_append_of_pos (by simpa using hafter),
      ← List.rdropWhile]

theorem mem_trimMatches {p : Char → Bool} {t : Text} {c : Char} (hc : p c = false) (h : c ∈ t) :
    c ∈ trimMatches p t := by
  have hdrop : c ∈ t.dropWhile p := by
    rw [← List.takeWhile_append_dropWhile (p := p) (l := t)] at h
    refine (List.mem_append.mp h).resolve_left fun hmem => ?_
    exact Bool.false_ne_true (hc.symm.trans (List.mem_takeWhile_imp hmem))
  rw [← List.rdropWhile_append_rtakeWhile (p := p) (l := t.dropWhile p)] at hdrop
  refine (List.mem_append.mp hdrop).resolve_right fun hmem => ?_
  exact Bool.false_ne_true (hc.symm.trans (List.mem_rtakeWhile_imp hmem))

theorem infix_of_append_left {part before t : Text} (hpart : ∀ c ∈ part, c ∉ before)
    (h : part <:+: before ++ t) : part <:+: t := by
  induction before with
  | nil => exact h
  | cons b before ih =>
    rcases List.infix_cons_iff.mp h with hprefix | h
    · cases part with
      | nil => exact List.nil_infix
      | cons c part =>
        obtain rfl : c = b := (List.cons_prefix_cons.mp hprefix).1
        exact absurd List.mem_cons_self (hpart c List.mem_cons_self)
    · exact ih (fun c hc hmem => hpart c hc (List.mem_cons_of_mem b hmem)) h

theorem infix_of_append_right {part t after : Text} (hpart : ∀ c ∈ part, c ∉ after)
    (h : part <:+: t ++ after) : part <:+: t := by
  rw [← List.reverse_infix, List.reverse_append] at h
  rw [← List.reverse_infix]
  exact infix_of_append_left (by simpa using hpart) h

theorem contains_spaced {p : Char → Bool} {part t before after : Text}
    (hpart : ∀ c ∈ part, p c = false) (hbefore : before.all p = true)
    (hafter : after.all p = true) :
    contains (before ++ (t ++ after)) part = contains t part := by
  have hnot : ∀ gap : Text, gap.all p = true → ∀ c ∈ part, c ∉ gap := by
    intro gap hgap c hc hmem
    exact Bool.false_ne_true ((hpart c hc).symm.trans (List.all_eq_true.mp hgap c hmem))
  simp only [contains, decide_eq_decide]
  constructor
  · intro h
    exact infix_of_append_right (hnot after hafter) (infix_of_append_left (hnot before hbefore) h)
  · intro h
    exact (h.trans (List.prefix_append t after).isInfix).trans
      (List.suffix_append before (t ++ after)).isInfix

theorem rdrop_append {t u : Text} {n : Nat} (h : n ≤ u.length) :
    (t ++ u).rdrop n = t ++ u.rdrop n := by
  rw [List.rdrop, List.rdrop, List.length_append, Nat.add_sub_assoc h, List.take_length_add_append]

theorem forall_mem_intercalate {P : Char → Prop} {sep : Text} {ts : List Text}
    (hsep : ∀ c ∈ sep, P c) (hts : ∀ t ∈ ts, ∀ c ∈ t, P c) : ∀ c ∈ sep.intercalate ts, P c := by
  induction ts with
  | nil => simp [List.intercalate_nil]
  | cons t ts ih =>
    have htail := ih fun u hu => hts u (List.mem_cons_of_mem _ hu)
    cases ts with
    | nil =>
      rw [List.intercalate_singleton]
      exact hts t List.mem_cons_self
    | cons u us =>
      rw [List.intercalate_cons_cons]
      intro c hc
      rcases List.mem_append.mp hc with hc | hc
      · rcases List.mem_append.mp hc with hc | hc
        · exact hts t List.mem_cons_self c hc
        · exact hsep c hc
      · exact htail c hc

theorem getLast?_splitOn (t : Text) (sep : Char) :
    (t.splitOn sep).getLast? = some (t.rtakeWhile (· != sep)) := by
  have hclean : sep ∉ t.rtakeWhile (· != sep) := by
    intro hmem
    simpa using List.mem_rtakeWhile_imp hmem
  have hsplit : t.rdropWhile (· != sep) ++ t.rtakeWhile (· != sep) = t :=
    List.rdropWhile_append_rtakeWhile
  by_cases hnil : t.rdropWhile (· != sep) = []
  · rw [hnil, List.nil_append] at hsplit
    rw [hsplit] at hclean ⊢
    rw [List.splitOn_eq_singleton hclean]
    rfl
  · have hlast := List.rdropWhile_last_not _ _ hnil
    have hsep : (t.rdropWhile (· != sep)).getLast hnil = sep := by simpa using hlast
    rw [← List.dropLast_append_getLast hnil, hsep, List.append_assoc] at hsplit
    conv_lhs => rw [← hsplit]
    rw [List.singleton_append, List.splitOn_append_cons_self, List.splitOn_eq_singleton hclean,
      List.getLast?_append]
    rfl

theorem takeWhile_filter_comm {p q : Char → Bool} (hpq : ∀ c, p c = false → q c = true)
    (t : Text) : (t.takeWhile p).filter q = (t.filter q).takeWhile p := by
  induction t with
  | nil => rfl
  | cons c t ih =>
    cases hp : p c with
    | false => simp [hp, hpq c hp]
    | true =>
      cases hq : q c with
      | false => simp [hp, hq, ih]
      | true => simp [hp, hq, ih]

theorem rtakeWhile_filter_comm {p q : Char → Bool} (hpq : ∀ c, p c = false → q c = true)
    (t : Text) : (t.rtakeWhile p).filter q = (t.filter q).rtakeWhile p := by
  rw [List.rtakeWhile, List.rtakeWhile, List.filter_reverse, takeWhile_filter_comm hpq,
    ← List.filter_reverse]

theorem rtakeWhile_append {p : Char → Bool} {t u : Text} (hu : ∀ c ∈ u, p c = true) :
    (t ++ u).rtakeWhile p = t.rtakeWhile p ++ u := by
  rw [List.rtakeWhile, List.reverse_append, List.takeWhile_append_of_pos (by simpa using hu),
    List.reverse_append, List.reverse_reverse, List.rtakeWhile]

theorem exists_rtakeWhile_append {p : Char → Bool} {t u : Text} (hu : ∀ c ∈ u, p c = true) :
    ∃ v, (v = u ∨ v = []) ∧ (u ++ t).rtakeWhile p = v ++ t.rtakeWhile p := by
  by_cases ht : t.rtakeWhile p = t
  · refine ⟨u, .inl rfl, ?_⟩
    rw [ht, List.rtakeWhile_eq_self_iff]
    exact List.forall_mem_append.mpr ⟨hu, List.rtakeWhile_eq_self_iff.mp ht⟩
  · refine ⟨[], .inr rfl, ?_⟩
    rw [List.nil_append, List.rtakeWhile, List.rtakeWhile, List.reverse_append,
      List.takeWhile_append, if_neg]
    intro hlength
    apply ht
    rw [List.rtakeWhile, (List.takeWhile_prefix p).eq_of_length hlength, List.reverse_reverse]

theorem rtakeWhile_after (t u : Text) (sep : Char) :
    (t ++ sep :: u).rtakeWhile (· != sep) = u.rtakeWhile (· != sep) := by
  rw [← Option.some_inj, ← getLast?_splitOn, ← getLast?_splitOn, List.splitOn_append_cons_self,
    List.getLast?_append_of_ne_nil _ (List.splitOn_ne_nil sep u)]

end Text

end ActixSend
