import TableQuery.Proofs.Syntax.Clauses

/-!
# Sort keys of texts that are joined

`LISTAGG` and `GROUP_CONCAT` have sort keys of their own, the one behind its arguments and the other
one among them. In front of a window they are read, too; but a window call has no place for them, so
that it is the same call as without them.
-/

namespace TableQuery.Language

open Language.Grammar

/-- The arguments of a call that joins the texts of the first one. -/
def joinedArguments (argument : Expr) (separator : Option String) : List Expr :=
  argument :: (separator.map fun s => Expr.literal (.text s)).toList

/-- The separator of `GROUP_CONCAT`. -/
def separatorTokens : Option String → List Token
  | none => []
  | some s => [.identifier "SEPARATOR", .text s]

/-- A call that joins texts in the order of sort keys of its own. -/
def sortedCallTokens (name : String) (distinct : Bool) (argument : List Token)
    (separator : Option String) (keys : List (List Token)) : List Token :=
  let lead := tokenIf distinct (.keyword .distinct)
  if name == "GROUP_CONCAT" then
    .identifier name ::
      parenTokens (lead ++ (argument ++ (orderByTokens keys ++ separatorTokens separator)))
  else
    let separator := (separator.map fun s => [Token.text s]).toList
    .identifier name :: (parenTokens (lead ++ commaTokens (argument :: separator)) ++
      .identifier "WITHIN" :: .keyword .group :: parenTokens (orderByTokens keys))

section

variable {g : Grammar} {ts us rest : List Token} {e w : Expr} {name : String} {distinct : Bool}
  {args partition : List Expr} {keys order : List OrderItem} {items : List (List Token)}
  {separator : Option String}

/-- A separator goes on with no sort key. -/
theorem endsKeys_separator (separator : Option String) (rest : List Token) :
    EndsKeys (separatorTokens separator ++ .symbol .rightParen :: rest) ∧
      ahead (separatorTokens separator ++ .symbol .rightParen :: rest) ≠ .symbol .comma ∧
      (ahead (separatorTokens separator ++ .symbol .rightParen :: rest)).isKeyword .order = false := by
  cases separator with
  | none => exact ⟨endsKeys_of_closes rfl, nofun, rfl⟩
  | some s =>
    have other : Text.sameIgnoringCase "SEPARATOR" "NULLS" = false := by decide
    exact ⟨⟨tightness_word (by decide) _, rfl, other⟩, nofun, rfl⟩

/-- The sort keys and the separator among the arguments. -/
theorem takes_concatOptions (keysRead : g.ReadsOrder keys) :
    Takes g.concatOptions (orderByTokens (orderTokens keys) ++ separatorTokens separator)
      (keys, (separator.map fun s => Expr.literal (.text s)).toList)
      (.symbol .rightParen :: rest) := by
  obtain ⟨stop, comma, other⟩ := endsKeys_separator separator rest
  refine Takes.bind (takes_order_before keysRead stop comma other) ?_
  cases separator with
  | none => exact Takes.bind_none (takes_takeIf_not rfl) (Takes.pure _ _)
  | some s =>
    refine Takes.bind_one (takes_word (by decide)) (Takes.bind_peek ?_)
    exact Takes.bind_one takes_advance (Takes.pure _ _)

/-- An argument ends in front of the sort keys and the separator. -/
theorem endsKeys_orderBy (keys : List (List Token)) (separator : Option String)
    (rest : List Token) :
    tightness (orderByTokens keys ++ (separatorTokens separator ++ .symbol .rightParen :: rest)) = 0 ∧
      ahead (orderByTokens keys ++ (separatorTokens separator ++ .symbol .rightParen :: rest)) ≠
        .symbol .comma := by
  rw [orderByTokens]
  split
  · exact ⟨(endsKeys_separator separator rest).1.loose, (endsKeys_separator separator rest).2.1⟩
  · refine ⟨rfl, fun same => ?_⟩
    cases same

variable (starts : g.Starts) (argumentRead : g.Reads ts e) (keysRead : g.ReadsOrder keys)

include starts argumentRead keysRead

/-- `GROUP_CONCAT` with what follows its arguments. -/
theorem takes_groupConcat (h : Takes (g.callEnd "GROUP_CONCAT" distinct (joinedArguments e separator)
    keys) us w rest) :
    Takes g.primary (sortedCallTokens "GROUP_CONCAT" distinct ts separator (orderTokens keys) ++ us) w
      rest := by
  have close : Takes (g.callClose "GROUP_CONCAT" distinct [e]) (orderByTokens (orderTokens keys) ++
      (separatorTokens separator ++ .symbol .rightParen :: us)) w rest := by
    unfold Grammar.callClose
    rw [if_pos (by decide), ← List.append_assoc]
    exact Takes.bind (takes_concatOptions keysRead)
      (Takes.bind_one (takes_expectSymbol .rightParen) h)
  obtain ⟨stop, comma⟩ := endsKeys_orderBy (orderTokens keys) separator (us ++ rest)
  obtain ⟨arguments, other⟩ := takes_callArguments starts (.cons argumentRead .nil)
    (List.cons_ne_nil _ _) close (by simpa using stop) (by simpa using comma)
  have call := takes_primary_call (takes_callFrom_of (by decide +kernel) arguments other)
  simpa [sortedCallTokens, parenTokens, commaTokens, separated] using call

/-- `LISTAGG` with what follows its sort keys. -/
theorem takes_listAgg (separatorRead : ∀ s ∈ separator, g.Reads [.text s] (.literal (.text s)))
    (h : Takes (g.callResult "LISTAGG" distinct (joinedArguments e separator) keys) us w rest) :
    Takes g.primary (sortedCallTokens "LISTAGG" distinct ts separator (orderTokens keys) ++ us) w
      rest := by
  have list : List.Forall₂ g.Reads (ts :: (separator.map fun s => [Token.text s]).toList)
      (joinedArguments e separator) := by
    cases separator with
    | none => exact .cons argumentRead .nil
    | some s => exact .cons argumentRead (.cons (separatorRead s rfl) .nil)
  have inner : Takes (Parser.inParens g.order) (parenTokens (orderByTokens (orderTokens keys))) keys
      (us ++ rest) := Takes.inParens (takes_order keysRead (by show 6 < 9; decide))
  have close : Takes (g.callEnd "LISTAGG" distinct (joinedArguments e separator) [])
      (.identifier "WITHIN" :: .keyword .group ::
        (parenTokens (orderByTokens (orderTokens keys)) ++ us)) w rest := by
    unfold Grammar.callEnd
    rw [if_pos (by decide)]
    refine Takes.bind_one (takes_word (by decide)) ?_
    exact Takes.bind_one (takes_expectKeyword .group) (Takes.bind inner h)
  have whole : Takes (g.callFrom "LISTAGG") _ w rest :=
    takes_callFrom starts (by decide +kernel) list close
  simpa [sortedCallTokens, parenTokens] using takes_primary_call whole

/-- Without a window the sort keys are those of the call. -/
theorem takes_sortedCall (joins : joiningNames.contains name = true)
    (separatorRead : ∀ s ∈ separator, g.Reads [.text s] (.literal (.text s)))
    (stop : tightness rest ≠ 8) :
    Takes g.primary (sortedCallTokens name distinct ts separator (orderTokens keys))
      (.listAggregate name distinct (joinedArguments e separator) keys) rest := by
  have names : name = "LISTAGG" ∨ name = "GROUP_CONCAT" := by
    simpa [joiningNames] using joins
  rw [← List.append_nil (sortedCallTokens ..)]
  rcases names with rfl | rfl
  · exact takes_listAgg starts argumentRead keysRead separatorRead (takes_callResult stop)
  · refine takes_groupConcat starts argumentRead keysRead ?_
    unfold Grammar.callEnd
    exact Takes.bind_none (Takes.pure keys _) (takes_callResult stop)

/-- In front of a window the sort keys of the call are read and left out: the same window call comes
from the call without them. -/
theorem takes_sortedCall_over (joins : joiningNames.contains name = true)
    (separatorRead : ∀ s ∈ separator, g.Reads [.text s] (.literal (.text s)))
    (partitionRead : List.Forall₂ g.Reads items partition) (orderRead : g.ReadsOrder order) :
    Takes g.primary (sortedCallTokens name distinct ts separator (orderTokens keys) ++
      .identifier "OVER" :: parenTokens (overTokens items (orderTokens order)))
      (.window name distinct (joinedArguments e separator) partition order) rest := by
  have names : name = "LISTAGG" ∨ name = "GROUP_CONCAT" := by
    simpa [joiningNames] using joins
  rcases names with rfl | rfl
  · exact takes_listAgg starts argumentRead keysRead separatorRead
      (takes_callResult_over partitionRead orderRead keys)
  · refine takes_groupConcat starts argumentRead keysRead ?_
    unfold Grammar.callEnd
    exact Takes.bind_none (Takes.pure keys _) (takes_callResult_over partitionRead orderRead keys)

end

end TableQuery.Language
