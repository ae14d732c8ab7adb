import Mathlib
import TableQuery.Value.RowKey

/-!
# Which rows share a key

The key of a row joins the keys of its values with colons, and the text of a value goes into its key
as it is. A text that holds a colon and the tag of a key, a seam, can be taken for two values, so
rows that differ can have one key. Rows of one width that have one key without being equal value by
value both hold a text with a seam.
-/

namespace TableQuery

open Calendar Number

/-! ## Seams -/

/-- The tags with which keys start. -/
def keyTags : List (List Char) :=
  ["[N]".toList, "[I]".toList, "[F]".toList, "[S]".toList]

/-- Whether a text starts like a key. -/
def startsKey (cs : List Char) : Bool :=
  keyTags.any fun tag => tag.isPrefixOf cs

/-- How often a colon stands in front of a tag. -/
def seams : List Char → Nat
  | [] => 0
  | c :: cs => (if c == ':' && startsKey cs then 1 else 0) + seams cs

theorem startsKey_append {cs : List Char} (h : startsKey cs = true) (ds : List Char) :
    startsKey (cs ++ ds) = true := by
  obtain ⟨tag, htag, hcs⟩ := List.any_eq_true.mp h
  rw [List.isPrefixOf_iff_prefix] at hcs
  exact List.any_eq_true.mpr
    ⟨tag, htag, List.isPrefixOf_iff_prefix.mpr (hcs.trans (List.prefix_append ..))⟩

/-- Tags hold no colon, so what follows a colon cannot complete one. -/
theorem startsKey_append_colon (cs ds : List Char) :
    startsKey (cs ++ ':' :: ds) = startsKey cs := by
  match cs with
  | [] => rfl
  | [_] => simp [startsKey, keyTags, List.isPrefixOf]
  | [_, _] => simp [startsKey, keyTags, List.isPrefixOf]
  | _ :: _ :: _ :: _ => simp [startsKey, keyTags, List.isPrefixOf]

theorem seams_append_colon (cs ds : List Char) :
    seams (cs ++ ':' :: ds) = seams cs + (if startsKey ds then 1 else 0) + seams ds := by
  induction cs with
  | nil => simp [seams]
  | cons c cs ih =>
    rw [List.cons_append, seams, seams, ih, startsKey_append_colon]
    omega

theorem seams_of_not_mem {cs : List Char} (h : ':' ∉ cs) : seams cs = 0 := by
  induction cs with
  | nil => rfl
  | cons c cs ih =>
    rw [List.mem_cons, not_or] at h
    have other : (c == ':') = false := beq_false_of_ne (Ne.symm h.1)
    rw [seams, other, ih h.2]
    rfl

/-! ## Joined keys -/

/-- A seam ends the first key of a row if no key of the row holds one. -/
theorem append_seam_inj {cs ds cs' ds' : List Char} (h : cs ++ ':' :: ds = cs' ++ ':' :: ds')
    (hds : startsKey ds = true) (hds' : startsKey ds' = true) (hcs : seams cs = 0)
    (hcs' : seams cs' = 0) : cs = cs' ∧ ds = ds' := by
  -- the longer of two different keys would hold the seam that ends the shorter one
  have whole {as bs as' bs' : List Char} (hbs : startsKey bs = true) (has' : seams as' = 0)
      {mid : List Char} (hmid : as' = as ++ mid) (hrest : ':' :: bs = mid ++ ':' :: bs') :
      mid = [] := by
    cases mid with
    | nil => rfl
    | cons c mid =>
      rw [List.cons_append, List.cons.injEq] at hrest
      obtain ⟨rfl, rfl⟩ := hrest
      rw [startsKey_append_colon] at hbs
      rw [hmid, seams_append_colon, hbs] at has'
      simp at has'
  obtain ⟨mid, hmid, hrest⟩ | ⟨mid, hmid, hrest⟩ := List.append_eq_append_iff.mp h
  · obtain rfl := whole hds hcs' hmid hrest
    exact ⟨by simpa using hmid.symm, (List.cons.inj hrest).2⟩
  · obtain rfl := whole hds' hcs hmid hrest
    exact ⟨by simpa using hmid, (List.cons.inj hrest).2.symm⟩

theorem startsKey_intercalate {k : List Char} (h : startsKey k = true) (ks : List (List Char)) :
    startsKey ([':'].intercalate (k :: ks)) = true := by
  cases ks with
  | nil => rwa [List.intercalate_singleton]
  | cons l ks =>
    rw [List.intercalate_cons_cons, List.append_assoc]
    exact startsKey_append h _

/-- The seams of a row are those of its keys and those between them. -/
theorem seams_intercalate {ks : List (List Char)} (starts : ∀ k ∈ ks, startsKey k = true) :
    seams ([':'].intercalate ks) = (ks.map seams).sum + (ks.length - 1) := by
  induction ks with
  | nil => rfl
  | cons k ks ih =>
    cases ks with
    | nil =>
      rw [List.intercalate_singleton]
      rfl
    | cons l ks =>
      have rest := ih fun m hm => starts m (by simp [hm])
      have next := startsKey_intercalate (starts l (by simp)) ks
      rw [List.intercalate_cons_cons, List.append_assoc, List.singleton_append, seams_append_colon,
        next, rest]
      simp only [if_true, List.map_cons, List.sum_cons, List.length_cons]
      omega

/-- Keys without seams are found again in their row. -/
theorem intercalate_inj {ks ls : List (List Char)} (length : ks.length = ls.length)
    (startsK : ∀ k ∈ ks, startsKey k = true) (startsL : ∀ l ∈ ls, startsKey l = true)
    (seamlessK : ∀ k ∈ ks, seams k = 0) (seamlessL : ∀ l ∈ ls, seams l = 0)
    (h : [':'].intercalate ks = [':'].intercalate ls) : ks = ls := by
  induction ks generalizing ls with
  | nil => exact (List.length_eq_zero_iff.mp length.symm).symm
  | cons k ks ih =>
    obtain ⟨l, ls, rfl⟩ := List.exists_cons_of_length_eq_add_one length.symm
    match ks, ls with
    | [], [] =>
      rw [List.intercalate_singleton, List.intercalate_singleton] at h
      rw [h]
    | k' :: ks, l' :: ls =>
      rw [List.intercalate_cons_cons, List.intercalate_cons_cons, List.append_assoc,
        List.append_assoc, List.singleton_append, List.singleton_append] at h
      obtain ⟨rfl, rest⟩ := append_seam_inj h
        (startsKey_intercalate (startsK k' (by simp)) ks)
        (startsKey_intercalate (startsL l' (by simp)) ls)
        (seamlessK k (by simp)) (seamlessL l (by simp))
      rw [ih (Nat.succ.inj length) (fun m hm => startsK m (by simp [hm]))
        (fun m hm => startsL m (by simp [hm])) (fun m hm => seamlessK m (by simp [hm]))
        (fun m hm => seamlessL m (by simp [hm])) rest]

/-- It is enough that the keys of one of the rows have no seams: the other row has as many seams. -/
theorem intercalate_inj_of_seamless {ks ls : List (List Char)} (length : ks.length = ls.length)
    (startsK : ∀ k ∈ ks, startsKey k = true) (startsL : ∀ l ∈ ls, startsKey l = true)
    (seamlessK : ∀ k ∈ ks, seams k = 0)
    (h : [':'].intercalate ks = [':'].intercalate ls) : ks = ls := by
  have none : (ks.map seams).sum = 0 := by
    rw [List.sum_eq_zero_iff_forall_eq_nat]
    simpa using seamlessK
  have same := congrArg seams h
  rw [seams_intercalate startsK, seams_intercalate startsL, length, none] at same
  have sum : (ls.map seams).sum = 0 := by omega
  rw [List.sum_eq_zero_iff_forall_eq_nat] at sum
  exact intercalate_inj length startsK startsL seamlessK (by simpa using sum) h

/-! ## Keys of values -/

/-- A text without a colon. -/
def Plain (s : String) : Prop :=
  ':' ∉ s.toList

instance (s : String) : Decidable (Plain s) :=
  inferInstanceAs (Decidable (¬ _))

theorem not_mem_toDigits {c : Char} (other : c.isDigit = false) (n : Nat) :
    c ∉ Nat.toDigits 10 n := by
  intro digit
  rw [Nat.isDigit_of_mem_toDigits (by decide) (by decide) digit] at other
  cases other

/-- The text of an integer holds digits and perhaps a minus. -/
theorem not_mem_repr {c : Char} (other : c.isDigit = false) (minus : c ≠ '-') (i : Int) :
    c ∉ i.repr.toList := by
  cases i with
  | ofNat n =>
    rw [Int.repr, Nat.toList_repr]
    exact not_mem_toDigits other n
  | negSucc n =>
    rw [Int.repr, String.toList_append, Nat.toList_repr, List.mem_append]
    exact not_or.mpr ⟨by simpa using minus, not_mem_toDigits other _⟩

theorem plain_toString_int (i : Int) : Plain (toString i) :=
  not_mem_repr (by decide) (by decide) i

theorem not_mem_padded {c : Char} (other : c.isDigit = false) (n d : Nat) :
    c ∉ List.replicate n '0' ++ Nat.toDigits 10 d := by
  rw [List.mem_append]
  refine not_or.mpr ⟨fun zero => ?_, not_mem_toDigits other d⟩
  rw [List.eq_of_mem_replicate zero] at other
  cases other

theorem mem_of_mem_dropZeros {c : Char} {ds : List Char}
    (h : c ∈ (dropZeros ds.reverse).reverse) : c ∈ ds := by
  rw [List.mem_reverse] at h
  exact List.mem_reverse.mp ((List.dropWhile_sublist _).subset h)

theorem not_mem_positional {c : Char} (other : c.isDigit = false) (point : c ≠ '.') (d : Nat)
    (e : Int) : c ∉ (positional d e).toList := by
  unfold positional
  dsimp only
  split
  · rw [String.toList_ofList, List.mem_append]
    refine not_or.mpr ⟨not_mem_toDigits other d, fun zero => ?_⟩
    rw [List.eq_of_mem_replicate zero] at other
    cases other
  · have padded := not_mem_padded other ((-e).toNat + 1 - (Nat.toDigits 10 d).length) d
    rw [String.toList_ofList]
    split
    · exact fun digit => padded (List.mem_of_mem_take digit)
    · rw [List.mem_append, List.mem_cons]
      rintro (digit | dot | digit)
      · exact padded (List.mem_of_mem_take digit)
      · exact point dot
      · exact padded (List.mem_of_mem_drop (mem_of_mem_dropZeros digit))

/-- The text of a float holds digits, a minus and a point, or it is the name of no finite number. -/
theorem not_mem_floatText {c : Char} (other : c.isDigit = false)
    (unnamed : c ∉ "-.infNaN".toList) (f : Float) : c ∉ (floatText f).toList := by
  have symbols : ∀ word : String, word.toList ⊆ "-.infNaN".toList → c ∉ word.toList :=
    fun word within mem => unnamed (within mem)
  have sign (negative : Bool) : c ∉ (if negative then "-" else "").toList := by
    cases negative <;> exact symbols _ (by decide)
  have append {a b : String} (ha : c ∉ a.toList) (hb : c ∉ b.toList) : c ∉ (a ++ b).toList := by
    rw [String.toList_append, List.mem_append]
    exact not_or.mpr ⟨ha, hb⟩
  have zero : c ∉ "0".toList := not_mem_toDigits other 0
  have point : c ≠ '.' := fun same => unnamed (same ▸ by decide)
  unfold floatText
  dsimp only
  split
  · exact append (sign _) zero
  split
  · exact append (sign _) (symbols _ (by decide))
  split
  · exact symbols _ (by decide)
  · exact append (sign _) (not_mem_positional other point _ _)

theorem plain_floatText (f : Float) : Plain (floatText f) :=
  not_mem_floatText (by decide) (by decide) f

theorem seams_tag {tag : List Char} (h : tag ∈ keyTags) (cs : List Char) :
    seams (tag ++ cs) = seams cs := by
  simp only [keyTags, List.mem_cons, List.not_mem_nil, or_false] at h
  rcases h with rfl | rfl | rfl | rfl <;> simp [seams]

namespace Value

/-- A key is a tag and, unless it is that of a text, a text without a colon. -/
theorem key_eq (clock : Clock) (v : Value) : ∃ tag body, v.key clock = tag ++ body ∧
    tag.toList ∈ keyTags ∧ (Plain body ∨ ∃ s, v = text s ∧ body = fold s) := by
  have none : ∃ tag body, "[N]" = tag ++ body ∧ tag.toList ∈ keyTags ∧
      (Plain body ∨ ∃ s, v = text s ∧ body = fold s) :=
    ⟨"[N]", "", by decide, by decide, .inl (by decide)⟩
  unfold key
  split
  · exact none
  split
  · exact ⟨"[I]", _, rfl, by decide, .inl (plain_toString_int _)⟩
  split
  · exact ⟨"[F]", _, rfl, by decide, .inl (plain_floatText _)⟩
  split
  · unfold momentKey
    split
    · exact ⟨"[F]", _, rfl, by decide, .inl (plain_floatText _)⟩
    · exact ⟨"[I]", _, rfl, by decide, .inl (plain_toString_int _)⟩
  split
  · exact ⟨"[I]", "1[B]T", by decide, by decide, .inl (by decide)⟩
  · exact ⟨"[I]", "0[B]F", by decide, by decide, .inl (by decide)⟩
  · exact ⟨"[S]", _, rfl, by decide, .inr ⟨_, rfl, rfl⟩⟩
  · exact none

theorem startsKey_key (clock : Clock) (v : Value) : startsKey (v.key clock).toList = true := by
  obtain ⟨tag, body, h, htag, -⟩ := v.key_eq clock
  rw [h, String.toList_append]
  exact List.any_eq_true.mpr ⟨_, htag, List.isPrefixOf_iff_prefix.mpr (List.prefix_append ..)⟩

/-- Only a text can put a seam into a key. -/
theorem seams_key {clock : Clock} {v : Value} (h : ∀ s, v = text s → seams (fold s).toList = 0) :
    seams (v.key clock).toList = 0 := by
  obtain ⟨tag, body, hkey, htag, hbody⟩ := v.key_eq clock
  rw [hkey, String.toList_append, seams_tag htag]
  obtain plain | ⟨s, hv, rfl⟩ := hbody
  · exact seams_of_not_mem plain
  · exact h s hv

end Value

/-! ## Rows -/

/-- No text of the row holds a seam. -/
def Seamless (vs : List Value) : Prop :=
  ∀ s, .text s ∈ vs → seams (Value.fold s).toList = 0

theorem toList_rowKey (clock : Clock) (vs : List Value) :
    (rowKey clock vs).toList = [':'].intercalate (vs.map fun v => (v.key clock).toList) := by
  rw [rowKey, String.toList_intercalate, List.map_map]
  rfl

theorem keys_eq_of_seamless {clock : Clock} {r₁ r₂ : List Value} (width : r₁.length = r₂.length)
    (seamless : Seamless r₁) (h : rowKey clock r₁ = rowKey clock r₂) :
    r₁.map (fun v => (v.key clock).toList) = r₂.map fun v => (v.key clock).toList := by
  have starts (r : List Value) : ∀ k ∈ r.map (fun v => (v.key clock).toList),
      startsKey k = true := by
    intro k hk
    obtain ⟨v, -, rfl⟩ := List.mem_map.mp hk
    exact v.startsKey_key clock
  refine intercalate_inj_of_seamless (by simpa using width) (starts r₁) (starts r₂) ?_ ?_
  · intro k hk
    obtain ⟨v, hv, rfl⟩ := List.mem_map.mp hk
    exact Value.seams_key fun s hs => seamless s (hs ▸ hv)
  · rw [← toList_rowKey, ← toList_rowKey, h]

/-- Equal keys value by value give one row key. Conversely rows of one width and one row key have
equal keys value by value, unless both hold a text with a seam and there are two values or more. -/
theorem rowKey_eq_iff {clock : Clock} {r₁ r₂ : List Value} (width : r₁.length = r₂.length)
    (h : r₁.length ≤ 1 ∨ Seamless r₁ ∨ Seamless r₂) :
    rowKey clock r₁ = rowKey clock r₂ ↔
      List.Forall₂ (fun a b => a.key clock = b.key clock) r₁ r₂ := by
  have pointwise : List.Forall₂ (fun a b => a.key clock = b.key clock) r₁ r₂ ↔
      r₁.map (fun v => (v.key clock).toList) = r₂.map fun v => (v.key clock).toList := by
    rw [← List.forall₂_eq_eq_eq, List.forall₂_map_left_iff, List.forall₂_map_right_iff]
    simp only [String.toList_inj]
  rw [pointwise]
  constructor
  · intro same
    obtain short | seamless | seamless := h
    · rcases r₁ with _ | ⟨a, _ | ⟨_, _⟩⟩
      · rw [List.length_eq_zero_iff.mp width.symm]
      · obtain ⟨b, rfl⟩ := List.length_eq_one_iff.mp width.symm
        simpa [toList_rowKey] using congrArg String.toList same
      · simp at short
    · exact keys_eq_of_seamless width seamless same
    · exact (keys_eq_of_seamless width.symm seamless same.symm).symm
  · intro same
    rw [← String.toList_inj, toList_rowKey, toList_rowKey, same]

/-- The rows `(1, 'a')` and `(' 1', 'A ')` have one key, as their values have. -/
theorem rowKey_eq_iff_spelled :
    Seamless [.integer 1, .text "a"] ∧
      rowKey {} [.integer 1, .text "a"] = rowKey {} [.text " 1", .text "A "] := by
  have seamless : Seamless [.integer 1, .text "a"] := by
    intro s hs
    obtain rfl : s = "a" := by simpa using hs
    decide +kernel
  exact ⟨seamless, (rowKey_eq_iff rfl (.inr (.inl seamless))).mpr
    (.cons (by decide +kernel) (.cons (by decide +kernel) .nil))⟩

/-- The rows `('a:[S]b', 'c')` and `('a', 'b:[S]c')` have one key, although their first values have
different ones: a text with a seam looks like two. -/
example : rowKey {} [.text "a:[S]b", .text "c"] = rowKey {} [.text "a", .text "b:[S]c"] ∧
    Value.key {} (.text "a:[S]b") ≠ Value.key {} (.text "a") := by
  decide +kernel

end TableQuery
