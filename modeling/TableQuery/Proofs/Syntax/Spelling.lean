import TableQuery.Proofs.Syntax.Scanning
import TableQuery.Proofs.Syntax.Tokens

/-!
# Canonical texts are read as their tokens

Canonical text writes names without quotes, so it is read as intended only if the names need none.
`Printable` says what else a text has to avoid.
-/

namespace TableQuery

open TableQuery.Language

/-! ## What can be printed -/

/-- Whether a text may stand behind the `@` of a variable. -/
def isVariableName (s : String) : Bool :=
  !s.toList.isEmpty && s.toList.all Text.isWordChar

/-- Whether a text is plain words with points between them. -/
def isTableName (s : String) : Bool :=
  (tableParts s).all isPlain

/-- Whether an expression is a number. -/
def Expr.isNumber : Expr → Bool
  | .literal (.integer _) | .literal (.float _) => true
  | _ => false

/-- Whether a source is a join. -/
def Source.isJoin : Source → Bool
  | .join .. => true
  | _ => false

/-- The lowest integer has no magnitude, and a float is written like an integer if it is whole and
small enough. -/
def Literal.Printable : Literal → Prop
  | integer i => i ≠ Int64.minValue
  | float f => f.isFinite ∧ Number.readInteger? (Number.splitSign (Number.floatText f).toList).2 = none
  | text _ | truth _ | null => True

mutual

def Expr.Printable : Expr → Prop
  | .literal l => l.Printable
  | .column none name => isPlain name
  | .column (some table) name => isPlain table ∧ isPlain name
  | .allColumns => True
  | .tableColumns table => isPlain table
  | .parens e | .not e => e.Printable
  | .signed sign e =>
    (sign = .minus → e.text.toList.head? ≠ some '-' ∧ e.isNumber = false) ∧ e.Printable
  | .arith _ a b | .compare _ a b | .logic _ a b | .is _ a b | .like _ a b | .isIn _ a b
  | .any _ a b | .all _ a b => a.Printable ∧ b.Printable
  | .between _ e low high => e.Printable ∧ low.Printable ∧ high.Printable
  | .concat items | .rowValue items | .valueList items => allPrintable items
  | .existsIn q | .subquery q => q.Printable
  | .call name args | .aggregate name _ args => isPlain name ∧ allPrintable args
  | .listAggregate name _ args order =>
    isPlain name ∧ (name = "LISTAGG" ∨ order = []) ∧ allPrintable args ∧ orderPrintable order
  | .window name _ args partition order =>
    isPlain name ∧ allPrintable args ∧ allPrintable partition ∧ orderPrintable order
  | .case operand branches otherwise =>
    optionPrintable operand ∧ branchesPrintable branches ∧ optionPrintable otherwise
  | .variable name => isVariableName name
  | .assign name value => isVariableName name ∧ value.Printable

def allPrintable : List Expr → Prop
  | [] => True
  | e :: es => e.Printable ∧ allPrintable es

def optionPrintable : Option Expr → Prop
  | none => True
  | some e => e.Printable

def orderPrintable : List OrderItem → Prop
  | [] => True
  | .mk key _ _ :: items => key.Printable ∧ orderPrintable items

def branchesPrintable : List Branch → Prop
  | [] => True
  | .mk condition result :: branches =>
    condition.Printable ∧ result.Printable ∧ branchesPrintable branches

def Query.Printable : Query → Prop
  | .mk _ tables body order offset limit =>
    tablesPrintable tables ∧ body.Printable ∧ orderPrintable order ∧ optionPrintable offset
      ∧ limit.Printable

def tablesPrintable : List InlineDef → Prop
  | [] => True
  | .mk name columns q :: tables =>
    isPlain name ∧ columns.all isPlain ∧ q.Printable ∧ tablesPrintable tables

def Limit.Printable : Limit → Prop
  | .all => True
  | .rows count _ _ => count.Printable

def Body.Printable : Body → Prop
  | .select _ fields sources condition groups having =>
    fieldsPrintable fields ∧ sourcesPrintable sources ∧ optionPrintable condition
      ∧ allPrintable groups ∧ optionPrintable having
  | .combine _ _ left right => left.Printable ∧ right.Printable
  | .nested q => q.Printable

def fieldsPrintable : List Field → Prop
  | [] => True
  | .mk e aliasName :: fields => e.Printable ∧ aliasName.all isPlain ∧ fieldsPrintable fields

def sourcesPrintable : List Source → Prop
  | [] => True
  | s :: sources => s.Printable ∧ sourcesPrintable sources

def Source.Printable : Source → Prop
  | .named name aliasName => isTableName name ∧ aliasName.all isPlain
  | .dual aliasName | .stdin aliasName => aliasName.all isPlain
  | .subquery q aliasName columns => q.Printable ∧ aliasName.all isPlain ∧ columns.all isPlain
  | .values rows aliasName columns =>
    rowsPrintable rows ∧ aliasName.all isPlain ∧ columns.all isPlain
  | .join _ left right m =>
    left.Printable ∧ right.isJoin = false ∧ right.Printable ∧ m.Printable

def rowsPrintable : List (List Expr) → Prop
  | [] => True
  | row :: rows => allPrintable row ∧ rowsPrintable rows

def JoinMatch.Printable : JoinMatch → Prop
  | .always | .natural => True
  | .on e => e.Printable
  | .using names => names.all isPlain

end

/-! ## Pieces that stand behind others -/

namespace Language

/-- A piece that may stand behind any other: it is empty or starts anew. -/
structure Trails (s : String) (ts : List Token) : Prop where
  spells : Spells s ts
  anew : startsAnew s.toList

/-- Texts and the tokens they are read as. -/
abbrev SpellsEach (texts : List String) (tokens : List (List Token)) : Prop :=
  List.Forall₂ Spells texts tokens

section

variable {s t w : String} {ts us vs : List Token} {texts : List String} {tokens : List (List Token)}

theorem Trails.empty : Trails "" [] :=
  ⟨delimits_empty.spells, by simp [startsAnew]⟩

theorem Trails.of_delimits (h : Delimits w ts) (anew : ∃ c ∈ w.toList.head?, endsToken c = true)
    (h' : Spells t us) : Trails (w ++ t) (ts ++ us) := by
  refine ⟨h.append_spells h', fun c hc => ?_⟩
  obtain ⟨d, head, ends⟩ := anew
  rw [String.toList_append, List.head?_append, head] at hc
  obtain rfl : d = c := Option.some.inj hc
  exact ends

theorem blank_first (s : String) : ∃ c ∈ (" " ++ s).toList.head?, endsToken c = true :=
  ⟨' ', by simp, rfl⟩

theorem Trails.of_blank (h : Spells s ts) : Trails (" " ++ s) ts :=
  Trails.of_delimits delimits_blank ⟨' ', rfl, rfl⟩ h

theorem Trails.append (h : Trails s ts) (h' : Trails t us) : Trails (s ++ t) (ts ++ us) := by
  refine ⟨h.spells.append h'.spells h'.anew, ?_⟩
  have head := h.anew
  rw [String.toList_append]
  cases text : s.toList with
  | nil => exact h'.anew
  | cons c cs => rw [text] at head; exact head

theorem Spells.trail (h : Spells s ts) (h' : Trails t us) : Spells (s ++ t) (ts ++ us) :=
  h.append h'.spells h'.anew

theorem Delimits.trail (h : Delimits s ts) (h' : Trails t us) : Spells (s ++ t) (ts ++ us) :=
  h.append_spells h'.spells

theorem spells_separated {separator : String} {symbol : Symbol}
    (h : Delimits separator [.symbol symbol])
    (anew : ∃ c ∈ separator.toList.head?, endsToken c = true) (items : SpellsEach texts tokens) :
    Spells (separator.intercalate texts) (separated symbol tokens) := by
  induction items with
  | nil => exact delimits_empty.spells
  | @cons s ts texts tokens item items ih =>
    cases items with
    | nil => simpa [separated] using item
    | cons next items =>
      rw [String.intercalate_cons_cons, separated]
      simpa using (item.append_delimits h anew).append_spells ih

theorem spells_commaList (items : SpellsEach texts tokens) :
    Spells (commaList texts) (commaTokens tokens) :=
  spells_separated delimits_comma ⟨',', rfl, rfl⟩ items

theorem spellsEach_names {names : List String} (h : names.all isPlain = true) :
    SpellsEach names (nameTokens names) := by
  induction names with
  | nil => exact .nil
  | cons name names ih =>
    rw [List.all_cons, Bool.and_eq_true] at h
    exact .cons (spells_name h.1) (ih h.2)

/-! ## Words between pieces -/

theorem delimits_keyword (k : Keyword) : Delimits (k.text ++ " ") [.keyword k] :=
  (spells_keyword k).blank

/-- A reserved word between blanks. -/
theorem delimits_spaced (k : Keyword) : Delimits (" " ++ (k.text ++ " ")) [.keyword k] :=
  delimits_blank.append (delimits_keyword k)

/-- A symbol between blanks. -/
theorem delimits_operator (s : Symbol) : Delimits (" " ++ (s.text ++ " ")) [.symbol s] :=
  delimits_blank.append (spells_symbol s).blank

theorem delimits_wordIf (flag : Bool) (k : Keyword) :
    Delimits (wordIf flag k.text) (tokenIf flag (.keyword k)) := by
  cases flag with
  | false => exact delimits_empty
  | true => exact delimits_keyword k

theorem delimits_not (flag : Bool) : Delimits (wordIf flag "NOT") (tokenIf flag (.keyword .not)) :=
  delimits_wordIf flag .not

theorem delimits_distinct (flag : Bool) :
    Delimits (wordIf flag "DISTINCT") (tokenIf flag (.keyword .distinct)) :=
  delimits_wordIf flag .distinct

/-- A piece behind a blank and a reserved word. -/
theorem Spells.behind (k : Keyword) (h : Spells s ts) (h' : Spells t us) :
    Spells (s ++ (" " ++ (k.text ++ " ")) ++ t) (ts ++ .keyword k :: us) := by
  simpa using (h.append_delimits (delimits_spaced k) (blank_first _)).append_spells h'

/-- Two pieces with a reserved word between them. -/
theorem Spells.join (k : Keyword) (h : Spells s ts) (h' : Spells t us) :
    Spells (s ++ " " ++ k.text ++ " " ++ t) (ts ++ .keyword k :: us) := by
  simpa using (h.blank.append_spells (spells_keyword k)).blank.append_spells h'

/-- Two pieces with an operator between them. -/
theorem Spells.operator (op : Symbol) (h : Spells s ts) (h' : Spells t us) :
    Spells (s ++ " " ++ op.text ++ " " ++ t) (ts ++ .symbol op :: us) := by
  simpa using (h.blank.append_spells (spells_symbol op)).blank.append_spells h'

/-- A piece behind a comparison operator and a quantifier. -/
theorem Spells.quantified (op : Symbol) (k : Keyword) (h : Spells s ts) (h' : Spells t us) :
    Spells (s ++ " " ++ op.text ++ (" " ++ (k.text ++ " ")) ++ t)
      (ts ++ .symbol op :: .keyword k :: us) := by
  simpa using (h.blank.append_spells (spells_symbol op)).behind k h'

/-- A piece behind the words of a predicate, which may be negated. -/
theorem Spells.predicate (negated : Bool) (k : Keyword) (h : Spells s ts) (h' : Spells t us) :
    Spells (s ++ " " ++ wordIf negated "NOT" ++ (k.text ++ " ") ++ t)
      (ts ++ (tokenIf negated (.keyword .not) ++ .keyword k :: us)) := by
  simpa using ((h.blank.append (delimits_not negated)).append (delimits_keyword k)).append_spells h'

theorem Spells.inParens (h : Spells s ts) : Delimits ("(" ++ s ++ ")") (parenTokens ts) :=
  h.parens

/-- A piece in parentheses behind a name. -/
theorem Spells.call {name : String} (plain : isPlain name = true) (h : Spells s ts) :
    Delimits (name ++ "(" ++ s ++ ")") (.identifier name :: parenTokens ts) := by
  have opened := (spells_name plain).append_delimits delimits_leftParen ⟨'(', rfl, rfl⟩
  exact (opened.append_spells h).append_delimits delimits_rightParen ⟨')', rfl, rfl⟩

/-- A piece in parentheses behind a reserved word. -/
theorem Trails.parens (k : Keyword) (h : Spells s ts) :
    Trails (" " ++ (k.text ++ " ") ++ "(" ++ s ++ ")") (.keyword k :: parenTokens ts) := by
  have inner := Trails.of_delimits (delimits_spaced k) (blank_first _) h.inParens.spells
  rwa [← String.append_assoc, ← String.append_assoc] at inner

end

/-! ## Names -/

/-- A column of a table. -/
theorem spells_column {table name : String} (h : isPlain table = true) (h' : isPlain name = true) :
    Spells (table ++ "." ++ name) [.identifier table, .symbol .dot, .identifier name] := by
  intro rest us anew scans
  rw [String.toList_append, String.toList_append, List.append_assoc, List.append_assoc]
  exact scans_dot h (digitAhead_name h' rest) (spells_name h' rest us anew scans)

/-- All columns of a table. -/
theorem delimits_tableColumns {table : String} (h : isPlain table = true) :
    Delimits (table ++ ".*") [.identifier table, .symbol .dot, .symbol .asterisk] := by
  intro rest us scans
  rw [String.toList_append, List.append_assoc]
  exact scans_dot h rfl (delimits_asterisk rest us scans)

/-- Plain words with points between them are read part by part. -/
theorem spells_parts {part : String} {parts : List String} (h : isPlain part = true)
    (h' : parts.all isPlain = true) :
    Spells (".".intercalate (part :: parts)) (separated .dot (nameTokens (part :: parts))) := by
  induction parts generalizing part with
  | nil => exact spells_name h
  | cons next parts ih =>
    rw [List.all_cons, Bool.and_eq_true] at h'
    intro rest us anew scans
    have tail := ih h'.1 h'.2 rest us anew scans
    obtain ⟨more, text⟩ : ∃ more, ".".intercalate (next :: parts) = next ++ more := by
      cases parts with
      | nil => exact ⟨"", by simp⟩
      | cons _ _ => exact ⟨_, by rw [String.intercalate_cons_cons, String.append_assoc]⟩
    have digit : digitAhead ((".".intercalate (next :: parts)).toList ++ rest) = false := by
      rw [text, String.toList_append, List.append_assoc]
      exact digitAhead_name h'.1 _
    rw [String.intercalate_cons_cons, String.toList_append, String.toList_append,
      List.append_assoc, List.append_assoc]
    exact scans_dot h digit tail

theorem spells_table {name : String} (h : isTableName name = true) :
    Spells name (tableTokens name) := by
  obtain ⟨part, parts, split⟩ := List.exists_cons_of_ne_nil (tableParts_ne_nil name)
  rw [isTableName, split, List.all_cons, Bool.and_eq_true] at h
  have spelled := spells_parts h.1 h.2
  rwa [← split, intercalate_tableParts] at spelled

theorem trails_alias {aliasName : Option String} (h : aliasName.all isPlain = true) :
    Trails (aliasText aliasName) (aliasTokens aliasName) := by
  cases aliasName with
  | none => exact Trails.empty
  | some name => exact Trails.of_delimits (delimits_spaced .as) ⟨' ', rfl, rfl⟩ (spells_name h)

theorem trails_columns {names : List String} (h : names.all isPlain = true) :
    Trails (columnsText names) (columnsTokens names) := by
  rw [columnsText, columnsTokens]
  cases empty : names.isEmpty with
  | true => exact Trails.empty
  | false =>
    have inner := Trails.of_blank (spells_commaList (spellsEach_names h)).inParens.spells
    rw [← String.append_assoc, ← String.append_assoc] at inner
    exact inner

/-! ## Clauses -/

section

variable {texts partitionTexts : List String} {tokens partitionTokens : List (List Token)}

theorem isEmpty_eq (h : SpellsEach texts tokens) : texts.isEmpty = tokens.isEmpty := by
  cases h <;> rfl

theorem spells_order (h : SpellsEach texts tokens) :
    Spells (orderText texts) (orderByTokens tokens) := by
  rw [orderText, orderByTokens, isEmpty_eq h]
  cases tokens.isEmpty with
  | true => exact delimits_empty.spells
  | false =>
    have words : Delimits "ORDER BY " [.keyword .order, .keyword .by] :=
      (delimits_keyword .order).append (delimits_keyword .by)
    exact words.append_spells (spells_commaList h)

theorem spells_over (partition : SpellsEach partitionTexts partitionTokens)
    (order : SpellsEach texts tokens) :
    Spells (overText partitionTexts texts) (overTokens partitionTokens tokens) := by
  rw [overText, overTokens, isEmpty_eq partition]
  cases partitionTokens.isEmpty with
  | true => exact delimits_empty.append_spells (spells_order order)
  | false =>
    have plain : isPlain "PARTITION" = true := by decide
    have words : Delimits "PARTITION BY " [.identifier "PARTITION", .keyword .by] :=
      (spells_name plain).blank.append (delimits_keyword .by)
    have keys := words.append_spells (spells_commaList partition)
    cases order with
    | nil => simpa [orderText, orderByTokens] using keys
    | cons item items => exact keys.blank.append_spells (spells_order (.cons item items))

/-- A list behind the words of a clause; nothing if it is empty. -/
theorem trails_list {words : String} {lead : List Token} (h : Delimits words lead)
    (anew : ∃ c ∈ words.toList.head?, endsToken c = true) (items : SpellsEach texts tokens) :
    Trails (if texts.isEmpty then "" else words ++ commaList texts)
      (if tokens.isEmpty then [] else lead ++ commaTokens tokens) := by
  rw [isEmpty_eq items]
  cases tokens.isEmpty with
  | true => exact Trails.empty
  | false => exact Trails.of_delimits h anew (spells_commaList items)

/-- A call up to its closing parenthesis. -/
theorem spells_callStart {name : String} (plain : isPlain name = true) (distinct : Bool)
    (args : SpellsEach texts tokens) :
    Spells (name ++ "(" ++ wordIf distinct "DISTINCT" ++ commaList texts)
      (.identifier name :: .symbol .leftParen
        :: (tokenIf distinct (.keyword .distinct) ++ commaTokens tokens)) := by
  have opened := (spells_name plain).append_delimits delimits_leftParen ⟨'(', rfl, rfl⟩
  exact ((opened.append (delimits_distinct distinct)).append_spells (spells_commaList args))

theorem spells_call {name : String} (plain : isPlain name = true) (distinct : Bool)
    (args : SpellsEach texts tokens) :
    Delimits (name ++ "(" ++ wordIf distinct "DISTINCT" ++ commaList texts ++ ")")
      (.identifier name
        :: parenTokens (tokenIf distinct (.keyword .distinct) ++ commaTokens tokens)) :=
  (spells_callStart plain distinct args).append_delimits delimits_rightParen ⟨')', rfl, rfl⟩

/-- The sort keys of a list aggregate. -/
theorem trails_within (order : SpellsEach texts tokens) :
    Trails (if texts.isEmpty then "" else " WITHIN GROUP (" ++ orderText texts ++ ")")
      (if tokens.isEmpty then []
        else .identifier "WITHIN" :: .keyword .group :: parenTokens (orderByTokens tokens)) := by
  rw [isEmpty_eq order]
  cases tokens.isEmpty with
  | true => exact Trails.empty
  | false =>
    have plain : isPlain "WITHIN" = true := by decide
    have words : Delimits " WITHIN GROUP (" [.identifier "WITHIN", .keyword .group,
        .symbol .leftParen] :=
      (delimits_blank.append ((spells_name plain).blank.append (delimits_keyword .group))).append
        delimits_leftParen
    have keys := (words.append_spells (spells_order order)).append_delimits delimits_rightParen
      ⟨')', rfl, rfl⟩
    have anew : startsAnew (" WITHIN GROUP (" ++ orderText texts ++ ")").toList := by
      rw [String.append_assoc, String.toList_append]
      simp [startsAnew, endsToken]
    simpa [parenTokens] using Trails.mk keys.spells anew

/-- A window call. -/
theorem spells_window {name : String} (plain : isPlain name = true) (distinct : Bool)
    {keyTexts : List String} {keyTokens : List (List Token)}
    (args : SpellsEach texts tokens) (partition : SpellsEach partitionTexts partitionTokens)
    (order : SpellsEach keyTexts keyTokens) :
    Spells (name ++ "(" ++ wordIf distinct "DISTINCT" ++ commaList texts ++ ") OVER ("
        ++ overText partitionTexts keyTexts ++ ")")
      (.identifier name
        :: (parenTokens (tokenIf distinct (.keyword .distinct) ++ commaTokens tokens)
        ++ .identifier "OVER" :: parenTokens (overTokens partitionTokens keyTokens))) := by
  have plainOver : isPlain "OVER" = true := by decide
  have words : Delimits ") OVER (" [.symbol .rightParen, .identifier "OVER", .symbol .leftParen] :=
    (delimits_rightParen.append (delimits_blank.append (spells_name plainOver).blank)).append
      delimits_leftParen
  have opened := (spells_callStart plain distinct args).append_delimits words ⟨')', rfl, rfl⟩
  have whole := (opened.append_spells (spells_over partition order)).append_delimits
    delimits_rightParen ⟨')', rfl, rfl⟩
  simpa [parenTokens] using whole.spells

end

end Language

/-! ## Expressions and queries -/

theorem toInt_neg {i : Int64} (h : i ≠ Int64.minValue) : (-i).toInt = -i.toInt := by
  have low : -2^63 ≤ i.toInt := Int64.le_toInt i
  have high : i.toInt < 2^63 := Int64.toInt_lt i
  have different : i.toInt ≠ -2^63 := fun same => h (Int64.toInt.inj (same.trans (by decide)))
  rw [Int64.toInt_neg, Int.bmod_eq_of_le (by omega) (by omega)]

/-- The text of a number below zero is a minus sign and the text of its magnitude. -/
theorem integerText_neg {i : Int64} (h : i ≠ Int64.minValue) (negative : i < 0) :
    Value.integerText i = "-" ++ Value.integerText (-i) := by
  rw [Int64.lt_iff_toInt_lt, Int64.toInt_zero] at negative
  obtain ⟨n, hn⟩ := Int.eq_negSucc_of_lt_zero negative
  have magnitude : (-i).toInt = Int.ofNat (n + 1) := by
    rw [toInt_neg h, hn]
    rfl
  rw [Value.integerText, Value.integerText, hn, magnitude]
  rfl

theorem spells_integer_of_neg {i : Int64} (h : i ≠ Int64.minValue) (negative : i < 0) :
    Spells (Value.integerText i) [.symbol .minus, .integer (-i)] := by
  have positive : 0 ≤ -i := by
    rw [Int64.le_iff_toInt_le, toInt_neg h, Int64.toInt_zero]
    rw [Int64.lt_iff_toInt_lt, Int64.toInt_zero] at negative
    omega
  rw [integerText_neg h negative]
  refine (spells_integer positive).minus fun minus => ?_
  obtain ⟨n, -, text⟩ := toList_integerText positive
  rw [text] at minus
  exact absurd (isDigit_of_mem '-' (List.mem_of_mem_head? minus)) (by decide)

theorem isNegative_iff {f : Float} : isNegative f = true ↔ 2 ^ 63 ≤ f.toBits.toNat := by
  have bound : f.toBits.toNat < 2 ^ 64 := f.toBits.toBitVec.isLt
  have power : Number.pow2 63 = 2 ^ 63 := rfl
  rw [isNegative, beq_iff_eq, power]
  omega

theorem spells_floatText {f : Float} (finite : f.isFinite = true)
    (wide : Number.readInteger? (Number.splitSign (Number.floatText f).toList).2 = none) :
    Spells (Number.floatText f) (Literal.float f).tokens := by
  rw [Literal.tokens]
  split <;> rename_i sign <;> rw [isNegative_iff] at sign
  · obtain ⟨small, text⟩ := Number.floatText_neg finite sign
    have finite' : (-f).isFinite = true := Number.isFinite_neg finite
    obtain ⟨_, _, _, denotes, -⟩ := Number.floatText_denotes finite' small
    have unsigned := denotes.splitSign_eq
    have minus : (Number.floatText f).toList = '-' :: (Number.floatText (-f)).toList := by
      rw [text, String.toList_append]
      rfl
    rw [minus, Number.splitSign] at wide
    rw [text]
    refine (spells_float finite' small wide).minus fun head => ?_
    -- a text with a sign of its own would be split
    obtain ⟨cs, same⟩ := List.head?_eq_some_iff.1 head
    rw [same] at unsigned
    cases unsigned
  · have small : f.toBits.toNat < 2 ^ 63 := not_le.1 sign
    obtain ⟨_, _, _, denotes, -⟩ := Number.floatText_denotes finite small
    rw [denotes.splitSign_eq] at wide
    exact spells_float finite small wide

theorem Literal.spells {l : Literal} (h : l.Printable) : Spells l.canonical l.tokens := by
  cases l with
  | integer i =>
    rw [Literal.tokens]
    by_cases negative : i < 0
    · rw [if_pos negative]
      exact spells_integer_of_neg h negative
    · rw [if_neg negative]
      exact spells_integer (Int64.not_lt.1 negative)
  | float f => exact spells_floatText h.1 h.2
  | text s => exact spells_quotedText s
  | truth t =>
    rw [Literal.canonical, Literal.tokens, ← t.text_keyword]
    exact spells_keyword t.keyword
  | null => exact spells_keyword .null

theorem spells_variable_name {name : String} (h : isVariableName name = true) :
    Spells ("@" ++ name) [.variable name] := by
  rw [isVariableName, Bool.and_eq_true, List.all_eq_true] at h
  exact spells_variable (by simpa using h.1) h.2

theorem trails_direction (d : Option Direction) : Trails (Direction.suffix d) (directionTokens d) := by
  cases d with
  | none => exact Trails.empty
  | some d =>
    rw [Direction.suffix, ← d.text_keyword]
    exact Trails.of_blank (spells_keyword d.keyword)

theorem trails_nulls (n : Option NullPlacement) : Trails (NullPlacement.suffix n) (nullsTokens n) := by
  have nulls : isPlain "NULLS" = true := by decide
  have words (word : String) (plain : isPlain word = true) :
      Trails (" " ++ ("NULLS" ++ " " ++ word)) [.identifier "NULLS", .identifier word] :=
    Trails.of_blank ((spells_name nulls).blank.append_spells (spells_name plain))
  match n with
  | none => exact Trails.empty
  | some .first => exact words "FIRST" (by decide)
  | some .last => exact words "LAST" (by decide)

/-- The words behind the number of rows of a limit. -/
theorem trails_limit (percent ties : Bool) :
    Trails ((if percent then " PERCENT" else "") ++ if ties then " WITH TIES" else "")
      (tokenIf percent (.identifier "PERCENT")
        ++ if ties then [.keyword .with, .identifier "TIES"] else []) := by
  have percentPlain : isPlain "PERCENT" = true := by decide
  have tiesPlain : isPlain "TIES" = true := by decide
  refine Trails.append ?_ ?_
  · cases percent with
    | false => exact Trails.empty
    | true => exact Trails.of_blank (spells_name percentPlain)
  · cases ties with
    | false => exact Trails.empty
    | true => exact Trails.of_delimits (delimits_spaced .with) ⟨' ', rfl, rfl⟩ (spells_name tiesPlain)

section

variable {texts : List String} {tokens : List (List Token)}

/-- The inline tables in front of a query. -/
theorem delimits_with (recursive : Bool) (tables : SpellsEach texts tokens) :
    Delimits (if texts.isEmpty then ""
        else "WITH " ++ wordIf recursive "RECURSIVE" ++ commaList texts ++ " ")
      (if tokens.isEmpty then []
        else .keyword .with
          :: (tokenIf recursive (.keyword .recursive) ++ commaTokens tokens)) := by
  rw [isEmpty_eq tables]
  cases tokens.isEmpty with
  | true => exact delimits_empty
  | false =>
    have words := (delimits_keyword .with).append (delimits_wordIf recursive .recursive)
    exact (words.append_spells (spells_commaList tables)).blank

theorem isEmpty_orderTexts (items : List OrderItem) : (orderTexts items).isEmpty = items.isEmpty := by
  rcases items with _ | ⟨⟨key, direction, nulls⟩, items⟩ <;> rfl

theorem isEmpty_orderTokens (items : List OrderItem) :
    (orderTokens items).isEmpty = items.isEmpty := by
  rcases items with _ | ⟨⟨key, direction, nulls⟩, items⟩ <;> rfl

theorem isEmpty_inlineTexts (tables : List InlineDef) :
    (inlineTexts tables).isEmpty = tables.isEmpty := by
  rcases tables with _ | ⟨⟨name, columns, q⟩, tables⟩ <;> rfl

theorem isEmpty_inlineTokens (tables : List InlineDef) :
    (inlineTokens tables).isEmpty = tables.isEmpty := by
  rcases tables with _ | ⟨⟨name, columns, q⟩, tables⟩ <;> rfl

theorem isEmpty_sourceTexts (sources : List Source) :
    (sourceTexts sources).isEmpty = sources.isEmpty := by
  cases sources <;> rfl

theorem isEmpty_sourceTokens (sources : List Source) :
    (sourceTokens sources).isEmpty = sources.isEmpty := by
  cases sources <;> rfl

theorem isEmpty_exprTexts (es : List Expr) : (exprTexts es).isEmpty = es.isEmpty := by
  cases es <;> rfl

theorem isEmpty_exprTokens (es : List Expr) : (exprTokens es).isEmpty = es.isEmpty := by
  cases es <;> rfl

theorem delimits_lead (m : JoinMatch) : Delimits m.lead m.leadTokens := by
  match m with
  | .natural => exact delimits_keyword .natural
  | .always | .on _ | .using _ => exact delimits_empty

theorem trails_order (items : SpellsEach texts tokens) :
    Trails (if texts.isEmpty then "" else " " ++ orderText texts) (orderByTokens tokens) := by
  have spelled := spells_order items
  have empty := isEmpty_eq items
  cases texts with
  | nil =>
    cases items
    exact Trails.empty
  | cons => exact Trails.of_blank spelled

end

mutual

theorem Expr.spells (e : Expr) (h : e.Printable) : Spells e.text e.tokens := by
  match e with
  | .literal l => exact l.spells h
  | .column none name => exact spells_name h
  | .column (some table) name =>
    rw [Expr.text, Expr.tokens]
    exact spells_column h.1 h.2
  | .allColumns => exact delimits_asterisk.spells
  | .tableColumns table =>
    rw [Expr.text, Expr.tokens]
    exact (delimits_tableColumns h).spells
  | .parens e =>
    rw [Expr.text, Expr.tokens]
    exact (Expr.spells e h).inParens.spells
  | .signed .plus e =>
    rw [Expr.text, Expr.tokens]
    exact delimits_plus.append_spells (Expr.spells e h.2)
  | .signed .minus e =>
    rw [Expr.text, Expr.tokens]
    exact (Expr.spells e h.2).minus (h.1 rfl).1
  | .arith op a b =>
    rw [Expr.text, Expr.tokens, ← op.text_symbol]
    exact (Expr.spells a h.1).operator op.symbol (Expr.spells b h.2)
  | .concat items =>
    rw [Expr.text, Expr.tokens]
    exact spells_separated (delimits_operator .concat) ⟨' ', rfl, rfl⟩ (exprs_spell items h)
  | .compare op a b =>
    rw [Expr.text, Expr.tokens, ← op.text_symbol]
    exact (Expr.spells a h.1).operator op.symbol (Expr.spells b h.2)
  | .is negated e value =>
    rw [Expr.text, Expr.tokens]
    have negation := (delimits_not negated).append_spells (Expr.spells value h.2)
    have whole := (Expr.spells e h.1).behind .is negation
    rw [← String.append_assoc] at whole
    exact whole
  | .between negated e low high =>
    rw [Expr.text, Expr.tokens]
    have lower := (Expr.spells e h.1).predicate negated .between (Expr.spells low h.2.1)
    have whole := lower.behind .and (Expr.spells high h.2.2)
    simp only [List.append_assoc, List.cons_append] at whole
    exact whole
  | .like negated e pattern =>
    rw [Expr.text, Expr.tokens]
    exact (Expr.spells e h.1).predicate negated .like (Expr.spells pattern h.2)
  | .isIn negated e values =>
    rw [Expr.text, Expr.tokens]
    exact (Expr.spells e h.1).predicate negated .in (Expr.spells values h.2)
  | .any op e values =>
    rw [Expr.text, Expr.tokens, ← op.text_symbol]
    exact (Expr.spells e h.1).quantified op.symbol .any (Expr.spells values h.2)
  | .all op e values =>
    rw [Expr.text, Expr.tokens, ← op.text_symbol]
    exact (Expr.spells e h.1).quantified op.symbol .all (Expr.spells values h.2)
  | .existsIn q =>
    rw [Expr.text, Expr.tokens]
    have inner := (delimits_keyword .exists).append (Query.spells q h).inParens
    rw [← String.append_assoc, ← String.append_assoc] at inner
    exact inner.spells
  | .subquery q =>
    rw [Expr.text, Expr.tokens]
    exact (Query.spells q h).inParens.spells
  | .rowValue items =>
    rw [Expr.text, Expr.tokens]
    exact (spells_commaList (exprs_spell items h)).inParens.spells
  | .valueList items =>
    rw [Expr.text, Expr.tokens]
    exact (spells_commaList (exprs_spell items h)).inParens.spells
  | .call name args =>
    rw [Expr.text, Expr.tokens]
    exact ((spells_commaList (exprs_spell args h.2)).call h.1).spells
  | .aggregate name distinct args =>
    rw [Expr.text, Expr.tokens]
    exact (spells_call h.1 distinct (exprs_spell args h.2)).spells
  | .listAggregate name distinct args order =>
    have call := spells_call h.1 distinct (exprs_spell args h.2.2.1)
    have whole := call.trail (trails_within (order_spells order h.2.2.2))
    rw [isEmpty_orderTexts, isEmpty_orderTokens] at whole
    rw [Expr.text, Expr.tokens]
    exact whole
  | .window name distinct args partition order =>
    rw [Expr.text, Expr.tokens]
    exact spells_window h.1 distinct (exprs_spell args h.2.1) (exprs_spell partition h.2.2.1)
      (order_spells order h.2.2.2)
  | .case operand branches otherwise =>
    have start := ((spells_keyword .case).trail (clause_trails delimits_blank ⟨' ', rfl, rfl⟩
      operand h.1)).trail (branches_trail branches h.2.1)
    have whole := (start.trail (clause_trails (delimits_spaced .else) ⟨' ', rfl, rfl⟩ otherwise
      h.2.2)).trail (Trails.of_blank (spells_keyword .end))
    simp only [List.append_assoc] at whole
    rw [Expr.text, Expr.tokens]
    exact whole
  | .logic op a b =>
    rw [Expr.text, Expr.tokens, ← op.text_keyword]
    exact (Expr.spells a h.1).join op.keyword (Expr.spells b h.2)
  | .not e =>
    rw [Expr.text, Expr.tokens]
    exact (delimits_keyword .not).append_spells (Expr.spells e h)
  | .variable name => exact spells_variable_name h
  | .assign name value =>
    rw [Expr.text, Expr.tokens]
    exact ((spells_variable_name h.1).append_delimits (delimits_operator .assign)
      ⟨' ', rfl, rfl⟩).append_spells (Expr.spells value h.2)

theorem exprs_spell (es : List Expr) (h : allPrintable es) :
    SpellsEach (exprTexts es) (exprTokens es) := by
  match es with
  | [] => exact .nil
  | e :: es => exact .cons (Expr.spells e h.1) (exprs_spell es h.2)

theorem clause_trails {words : String} {lead : List Token} (h : Delimits words lead)
    (anew : ∃ c ∈ words.toList.head?, endsToken c = true) (clause : Option Expr)
    (printable : optionPrintable clause) :
    Trails (clauseText words clause) (clauseTokens lead clause) := by
  match clause with
  | none => exact Trails.empty
  | some e => exact Trails.of_delimits h anew (Expr.spells e printable)

theorem order_spells (items : List OrderItem) (h : orderPrintable items) :
    SpellsEach (orderTexts items) (orderTokens items) := by
  match items with
  | [] => exact .nil
  | .mk key direction nulls :: items =>
    rw [orderTexts, orderTokens, String.append_assoc]
    exact .cons ((Expr.spells key h.1).trail
      ((trails_direction direction).append (trails_nulls nulls))) (order_spells items h.2)

theorem branches_trail (branches : List Branch) (h : branchesPrintable branches) :
    Trails (branchTexts branches) (branchTokens branches) := by
  match branches with
  | [] => exact Trails.empty
  | .mk condition result :: branches =>
    have test := Trails.of_delimits (delimits_spaced .when) ⟨' ', rfl, rfl⟩
      (Expr.spells condition h.1)
    have outcome := Trails.of_delimits (delimits_spaced .then) ⟨' ', rfl, rfl⟩
      (Expr.spells result h.2.1)
    have whole := (test.append outcome).append (branches_trail branches h.2.2)
    rw [← String.append_assoc] at whole
    simp only [List.append_assoc] at whole
    rw [branchTexts, branchTokens]
    exact whole

theorem Query.spells (q : Query) (h : q.Printable) : Spells q.text q.tokens := by
  match q with
  | .mk recursive tables body order offset limit =>
    have start := (delimits_with recursive (tables_spell tables h.1)).append_spells
      (Body.spells body h.2.1)
    have whole := ((start.trail (trails_order (order_spells order h.2.2.1))).trail
      (clause_trails (delimits_spaced .offset) ⟨' ', rfl, rfl⟩ offset h.2.2.2.1)).trail
      (Limit.trails limit h.2.2.2.2)
    rw [isEmpty_inlineTexts, isEmpty_inlineTokens, isEmpty_orderTexts] at whole
    simp only [List.append_assoc] at whole
    rw [Query.text, Query.tokens]
    exact whole

theorem tables_spell (tables : List InlineDef) (h : tablesPrintable tables) :
    SpellsEach (inlineTexts tables) (inlineTokens tables) := by
  match tables with
  | [] => exact .nil
  | .mk name columns query :: tables =>
    have start := (spells_name h.1).trail (trails_columns h.2.1)
    have words : Delimits " AS (" [.keyword .as, .symbol .leftParen] :=
      (delimits_spaced .as).append delimits_leftParen
    have whole := ((start.append_delimits words ⟨' ', rfl, rfl⟩).append_spells
      (Query.spells query h.2.2.1)).append_delimits delimits_rightParen ⟨')', rfl, rfl⟩
    rw [inlineTexts, inlineTokens]
    exact .cons (by simpa [parenTokens] using whole.spells) (tables_spell tables h.2.2.2)

theorem Limit.trails (limit : Limit) (h : limit.Printable) : Trails limit.text limit.tokens := by
  match limit with
  | .all => exact Trails.empty
  | .rows count percent ties =>
    have number := Trails.of_delimits (delimits_spaced .limit) ⟨' ', rfl, rfl⟩ (Expr.spells count h)
    have whole := number.append (trails_limit percent ties)
    rw [← String.append_assoc] at whole
    rw [Limit.text, Limit.tokens]
    exact whole

theorem Body.spells (body : Body) (h : body.Printable) : Spells body.text body.tokens := by
  match body with
  | .select distinct fields sources condition groups having =>
    have start := ((delimits_keyword .select).append (delimits_distinct distinct)).append_spells
      (spells_commaList (fields_spell fields h.1))
    have from_ := trails_list (delimits_spaced .from) ⟨' ', rfl, rfl⟩ (sources_spell sources h.2.1)
    have where_ := clause_trails (delimits_spaced .where) ⟨' ', rfl, rfl⟩ condition h.2.2.1
    have words : Delimits " GROUP BY " [.keyword .group, .keyword .by] :=
      (delimits_spaced .group).append (delimits_keyword .by)
    have group := trails_list words ⟨' ', rfl, rfl⟩ (exprs_spell groups h.2.2.2.1)
    have having_ := clause_trails (delimits_spaced .having) ⟨' ', rfl, rfl⟩ having h.2.2.2.2
    have whole := (((start.trail from_).trail where_).trail group).trail having_
    rw [isEmpty_sourceTexts, isEmpty_sourceTokens, isEmpty_exprTexts, isEmpty_exprTokens] at whole
    simp only [List.append_assoc] at whole
    rw [Body.text, Body.tokens]
    exact whole
  | .combine op all left right =>
    have words := ((Body.spells left h.1).blank.append_spells (spells_keyword op.keyword)).blank
    have whole := (words.append (delimits_wordIf all .all)).append_spells (Body.spells right h.2)
    rw [op.text_keyword] at whole
    simp only [List.append_assoc] at whole
    rw [Body.text, Body.tokens]
    exact whole
  | .nested q =>
    rw [Body.text, Body.tokens]
    exact (Query.spells q h).inParens.spells

theorem fields_spell (fields : List Field) (h : fieldsPrintable fields) :
    SpellsEach (fieldTexts fields) (fieldTokens fields) := by
  match fields with
  | [] => exact .nil
  | .mk e aliasName :: fields =>
    exact .cons ((Expr.spells e h.1).trail (trails_alias h.2.1)) (fields_spell fields h.2.2)

theorem sources_spell (sources : List Source) (h : sourcesPrintable sources) :
    SpellsEach (sourceTexts sources) (sourceTokens sources) := by
  match sources with
  | [] => exact .nil
  | s :: sources => exact .cons (Source.spells s h.1) (sources_spell sources h.2)

theorem Source.spells (s : Source) (h : s.Printable) : Spells s.text s.tokens := by
  match s with
  | .named name aliasName =>
    rw [Source.text, Source.tokens]
    exact (spells_table h.1).trail (trails_alias h.2)
  | .dual aliasName =>
    rw [Source.text, Source.tokens]
    exact (spells_keyword .dual).trail (trails_alias h)
  | .stdin aliasName =>
    rw [Source.text, Source.tokens]
    exact (spells_keyword .stdin).trail (trails_alias h)
  | .subquery q aliasName columns =>
    have whole := ((Query.spells q h.1).inParens.trail (trails_alias h.2.1)).trail
      (trails_columns h.2.2)
    rw [List.append_assoc] at whole
    rw [Source.text, Source.tokens]
    exact whole
  | .values rows aliasName columns =>
    have words : Delimits "(VALUES " [.symbol .leftParen, .keyword .values] :=
      delimits_leftParen.append (delimits_keyword .values)
    have list := (words.append_spells (spells_commaList (rows_spell rows h.1))).append_delimits
      delimits_rightParen ⟨')', rfl, rfl⟩
    have whole := (list.trail (trails_alias h.2.1)).trail (trails_columns h.2.2)
    rw [Source.text, Source.tokens]
    simpa [parenTokens] using whole
  | .join kind left right matching =>
    have words := ((Source.spells left h.1).blank.append (delimits_lead matching)).append_spells
      (spells_keyword kind.keyword)
    have whole := (words.behind .join (Source.spells right h.2.2.1)).trail
      (JoinMatch.trails matching h.2.2.2)
    rw [kind.text_keyword] at whole
    simp only [List.append_assoc, List.cons_append] at whole
    rw [Source.text, Source.tokens]
    exact whole

theorem rows_spell (rows : List (List Expr)) (h : rowsPrintable rows) :
    SpellsEach (rowTexts rows) (rowTokens rows) := by
  match rows with
  | [] => exact .nil
  | row :: rows =>
    exact .cons (spells_commaList (exprs_spell row h.1)).inParens.spells (rows_spell rows h.2)

theorem JoinMatch.trails (m : JoinMatch) (h : m.Printable) : Trails m.text m.tokens := by
  match m with
  | .always | .natural => exact Trails.empty
  | .on e =>
    rw [JoinMatch.text, JoinMatch.tokens]
    exact Trails.of_delimits (delimits_spaced .on) ⟨' ', rfl, rfl⟩ (Expr.spells e h)
  | .using names =>
    rw [JoinMatch.text, JoinMatch.tokens]
    exact Trails.parens .using (spells_commaList (spellsEach_names h))

end

end TableQuery
