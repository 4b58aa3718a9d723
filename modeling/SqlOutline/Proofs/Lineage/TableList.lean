import SqlOutline.Proofs.Layout.Moved
import SqlOutline.Proofs.Lineage.Spread
import SqlOutline.Proofs.Piece.Cut
import SqlOutline.Proofs.Script.Separation

/-!
# Lists of tables

The items of a list of tables are the tokens between its commas outside parentheses
(`TableUse.ofBody_eq`). An item uses the table that its first tokens name, and no
other (`TableUse.ofTokens?_eq_some_iff`).
-/

namespace SqlOutline

/-! ## Items as tokens -/

/-- The parts of a dotted name after the first one, as they are written: each behind a
dot. -/
inductive WritesParts : List Token → List Token → Prop
  | nil : WritesParts [] []
  | cons {dot part : Token} {tokens parts : List Token} (hdot : dot.kind = .dot)
      (hpart : part.isNamePart = true) (h : WritesParts tokens parts) :
      WritesParts (dot :: part :: tokens) (part :: parts)

/-- Whether the tokens do not go on with a dotted name before them. -/
def EndsName (rest : List Token) : Prop :=
  ∀ dot part more, rest = dot :: part :: more →
    ¬ (dot.kind = .dot ∧ part.isNamePart = true)

/-- The dotted name at the beginning of an item of a list of tables, and the tokens
behind it. -/
structure ItemName where
  first : Token
  /-- The parts after the first dot. -/
  parts : List Token
  rest : List Token

namespace ItemName

/-- Whether an item begins with this name, after any `LATERAL`. The name has as many
parts as there are. -/
structure Begins (name : ItemName) (item : List Token) : Prop where
  isIdentifier : name.first.isIdentifier = true
  exists_tokens : ∃ laterals dotted,
    significant item = laterals ++ name.first :: (dotted ++ name.rest) ∧
    (∀ token ∈ laterals, token.isKeyword .lateral = true) ∧
    WritesParts dotted name.parts
  endsName : EndsName name.rest

variable (name : ItemName)

def IsCall : Prop :=
  ∃ token ∈ name.rest.head?, token.opens = true

/-- Whether the name has one part and is, in letters of either case, that of a visible
common table. -/
def IsCommonTable (visible : List String) : Prop :=
  name.parts = [] ∧ ∃ table ∈ visible, Text.sameCaseless table name.first.name = true

/-- Whether the mention is of the table that the name ends with, in the schema that
stands before that or else in the one at hand, from the beginning of the name to its
end. -/
def MentionedBy (schema : String) (mention : TableMention) : Prop :=
  ∃ init last, name.first :: name.parts = init ++ [last] ∧
    mention = ⟨(init.getLast?.map (·.name)).getD schema, last.name, name.first.line,
      name.first.start, last.stop⟩

def GivesAlias (aliasName : String) : Prop :=
  ∃ token, token.isIdentifier = true ∧ token.name = aliasName ∧
    (name.rest.head? = some token ∨
      ∃ as more, name.rest = as :: token :: more ∧ as.isKeyword .as = true)

end ItemName

/-- The table that an item of a list of tables uses. -/
def TableUse.Reads (schema : String) (visible : List String) (item : List Token)
    (use : TableUse) : Prop :=
  ∃ name : ItemName, name.Begins item ∧ ¬ name.IsCall ∧ ¬ name.IsCommonTable visible ∧
    name.MentionedBy schema use.mention ∧
    ∀ aliasName, use.aliasName = some aliasName ↔ name.GivesAlias aliasName

def TableUse.ofTokens? (schema : String) (visible : List String) (item : List Token) :
    Option TableUse :=
  ofItem? schema visible (Piece.ofTokens (significant item))

/-! ## Names of items -/

private theorem Lexeme.opens_of_isNamePart {lexeme : Lexeme}
    (h : lexeme.isNamePart = true) : lexeme.opens = false := by
  rw [isNamePart, isIdentifier] at h
  cases hkind : lexeme.kind <;> simp_all [Lexeme.keyword?, TokenKind.keyword?, opens]

private theorem exists_writesParts (tokens : List Token) :
    ∃ dotted parts rest, tokens = dotted ++ rest ∧ WritesParts dotted parts ∧
      EndsName rest := by
  match tokens with
  | [] => exact ⟨[], [], [], rfl, .nil, by simp [EndsName]⟩
  | [token] => exact ⟨[], [], [token], rfl, .nil, by simp [EndsName]⟩
  | dot :: part :: tokens =>
    by_cases hname : dot.kind = .dot ∧ part.isNamePart = true
    · obtain ⟨dotted, parts, rest, rfl, hparts, hends⟩ := exists_writesParts tokens
      exact ⟨dot :: part :: dotted, part :: parts, rest, rfl,
        .cons hname.1 hname.2 hparts, hends⟩
    · refine ⟨[], [], dot :: part :: tokens, rfl, .nil, ?_⟩
      rintro dot' part' more hsame
      obtain ⟨rfl, hmore⟩ := List.cons.inj hsame
      obtain ⟨rfl, -⟩ := List.cons.inj hmore
      exact hname

private theorem Piece.exists_of_ofTokens_eq_single_cons {tokens : List Token}
    {token : Token} {pieces : List Piece}
    (h : ofTokens tokens = .single token :: pieces) :
    ∃ rest, tokens = token :: rest ∧ ofTokens rest = pieces := by
  cases tokens with
  | nil => simp [ofTokens_nil] at h
  | cons first rest =>
    by_cases hopens : first.opens = true
    · rw [ofTokens_cons_of_opens rest hopens] at h
      simp at h
    · rw [ofTokens_cons_of_not_opens rest (by simpa using hopens)] at h
      obtain ⟨hfirst, hrest⟩ := List.cons.inj h
      exact ⟨rest, by rw [Piece.single.inj hfirst], hrest⟩

namespace TableUse

theorem moreParts_of_endsName {rest : List Token} (h : EndsName rest) :
    moreParts (Piece.ofTokens rest) = ([], Piece.ofTokens rest) := by
  rw [moreParts.eq_def]
  split
  · next dot part pieces hpieces =>
    obtain ⟨tail, rfl, htail⟩ := Piece.exists_of_ofTokens_eq_single_cons hpieces
    obtain ⟨more, rfl, -⟩ := Piece.exists_of_ofTokens_eq_single_cons htail
    rw [if_neg (h dot part more rfl), hpieces]
  · rfl

private theorem moreParts_append {dotted parts rest : List Token}
    (h : WritesParts dotted parts) (hends : EndsName rest) :
    moreParts (Piece.ofTokens (dotted ++ rest)) = (parts, Piece.ofTokens rest) := by
  induction h with
  | nil => exact moreParts_of_endsName hends
  | @cons dot part tokens parts hdot hpart h ih =>
    have hopens : dot.opens = false := by
      rw [Lexeme.opens, hdot]
      rfl
    rw [List.cons_append, List.cons_append, Piece.ofTokens_cons_of_not_opens _ hopens,
      Piece.ofTokens_cons_of_not_opens _ (Lexeme.opens_of_isNamePart hpart),
      moreParts, if_pos ⟨hdot, hpart⟩, ih]

theorem alias?_ofTokens_eq_some_iff {rest : List Token} {aliasName : String} :
    alias? (Piece.ofTokens rest) = some aliasName ↔
      ∃ token, token.isIdentifier = true ∧ token.name = aliasName ∧
        (rest.head? = some token ∨
          ∃ as more, rest = as :: token :: more ∧ as.isKeyword .as = true) := by
  constructor
  · intro h
    cases hpieces : Piece.ofTokens rest with
    | nil => simp [hpieces, alias?] at h
    | cons piece pieces =>
      cases piece with
      | group opening inner closing => simp [hpieces, alias?] at h
      | single first =>
        obtain ⟨more, rfl, hmore⟩ := Piece.exists_of_ofTokens_eq_single_cons hpieces
        rw [hpieces, alias?.eq_def] at h
        dsimp only at h
        split at h
        · next has =>
          split at h
          · next token later =>
            obtain ⟨last, rfl, -⟩ := Piece.exists_of_ofTokens_eq_single_cons hmore
            split at h
            · next hidentifier =>
              exact ⟨token, hidentifier, Option.some.inj h,
                Or.inr ⟨first, last, rfl, has⟩⟩
            · simp at h
          · simp at h
        · split at h
          · next hidentifier =>
              exact ⟨first, hidentifier, Option.some.inj h, Or.inl rfl⟩
          · simp at h
  · rintro ⟨token, hidentifier, rfl, hhead | ⟨as, more, rfl, has⟩⟩
    · obtain ⟨more, rfl⟩ := List.head?_eq_some_iff.1 hhead
      rw [Piece.ofTokens_cons_of_not_opens more
          (Lexeme.opens_of_isIdentifier hidentifier), alias?.eq_def]
      dsimp only
      rw [Lexeme.isKeyword_of_isIdentifier hidentifier, if_neg Bool.false_ne_true,
        if_pos hidentifier]
    · have hopens : as.opens = false :=
        Lexeme.opens_of_keyword? (Option.isSome_of_mem (Lexeme.isKeyword_iff.1 has))
      rw [Piece.ofTokens_cons_of_not_opens _ hopens,
        Piece.ofTokens_cons_of_not_opens more
          (Lexeme.opens_of_isIdentifier hidentifier), alias?, if_pos has]
      exact if_pos hidentifier

private theorem head?_ofTokens_isGroup (tokens : List Token) :
    (Piece.ofTokens tokens).head?.any Piece.isGroup = tokens.head?.any (·.opens) := by
  cases tokens with
  | nil => simp [Piece.ofTokens_nil]
  | cons first rest =>
    cases hopens : first.opens with
    | true =>
      rw [Piece.ofTokens_cons_of_opens rest hopens]
      exact hopens.symm
    | false =>
      rw [Piece.ofTokens_cons_of_not_opens rest hopens]
      exact hopens.symm

private theorem dropWhile_ofTokens {laterals rest : List Token}
    (hlaterals : ∀ token ∈ laterals, token.isKeyword .lateral = true)
    (hrest : ∀ first ∈ rest.head?, first.isKeyword .lateral = false) :
    ((Piece.ofTokens (laterals ++ rest)).dropWhile fun piece =>
        piece.keyword? == some .lateral) =
      Piece.ofTokens rest := by
  have hopens : ∀ token ∈ laterals, token.opens = false :=
    fun token htoken => Lexeme.opens_of_keyword?
      (Option.isSome_of_mem (Lexeme.isKeyword_iff.1 (hlaterals token htoken)))
  have hskipped : ∀ piece ∈ laterals.map Piece.single,
      (piece.keyword? == some .lateral) = true := by
    rw [List.forall_mem_map]
    exact fun token htoken =>
      beq_iff_eq.2 (Lexeme.isKeyword_iff.1 (hlaterals token htoken))
  rw [Piece.ofTokens_append _ (depth_of_not_opens hopens),
    Piece.ofTokens_of_not_opens hopens, List.dropWhile_append_of_pos hskipped]
  cases rest with
  | nil => rw [Piece.ofTokens_nil, List.dropWhile_nil]
  | cons first tail =>
    cases hgroup : first.opens with
    | true =>
      rw [Piece.ofTokens_cons_of_opens tail hgroup]
      exact List.dropWhile_cons_of_neg (by simp [Piece.keyword?])
    | false =>
      rw [Piece.ofTokens_cons_of_not_opens tail hgroup]
      apply List.dropWhile_cons_of_neg
      rw [Piece.keyword?, beq_iff_eq, ← Lexeme.isKeyword_iff, hrest first rfl]
      exact Bool.false_ne_true

end TableUse

namespace ItemName

variable {name : ItemName} {item : List Token}

/-- What an item uses is read off the name that it begins with. -/
theorem Begins.ofTokens?_eq_some_iff (h : name.Begins item) {schema : String}
    {visible : List String} {use : TableUse} :
    TableUse.ofTokens? schema visible item = some use ↔
      ¬ name.IsCall ∧ ¬ name.IsCommonTable visible ∧
        ⟨TableUse.mentionOf schema name.first name.parts,
          TableUse.alias? (Piece.ofTokens name.rest)⟩ = use := by
  obtain ⟨laterals, dotted, hitem, hlaterals, hparts⟩ := h.exists_tokens
  have hfirst : ∀ first ∈ (name.first :: (dotted ++ name.rest)).head?,
      first.isKeyword .lateral = false := by
    rintro first ⟨rfl⟩
    exact Lexeme.isKeyword_of_isIdentifier h.isIdentifier .lateral
  have hcall : name.rest.head?.any (·.opens) = true ↔ name.IsCall := by
    rw [Option.any_eq_true]
    exact Iff.rfl
  have hcommon : (name.parts.isEmpty &&
          visible.any (Text.sameCaseless · name.first.name)) = true ↔
      name.IsCommonTable visible := by
    rw [Bool.and_eq_true, List.isEmpty_iff, List.any_eq_true]
    rfl
  rw [TableUse.ofTokens?, TableUse.ofItem?, hitem,
    TableUse.dropWhile_ofTokens hlaterals hfirst,
    Piece.ofTokens_cons_of_not_opens _ (Lexeme.opens_of_isIdentifier h.isIdentifier)]
  simp only [TableUse.moreParts_append hparts h.endsName,
    TableUse.head?_ofTokens_isGroup, h.isIdentifier, Bool.true_and]
  rw [← hcall, ← hcommon]
  cases name.rest.head?.any (·.opens) <;>
    cases name.parts.isEmpty && visible.any (Text.sameCaseless · name.first.name) <;>
    simp

theorem exists_begins {schema : String} {visible : List String} {use : TableUse}
    (h : TableUse.ofTokens? schema visible item = some use) :
    ∃ name : ItemName, name.Begins item := by
  have hsplit : (significant item).takeWhile (·.isKeyword .lateral) ++
      (significant item).dropWhile (·.isKeyword .lateral) = significant item :=
    List.takeWhile_append_dropWhile
  have hlaterals : ∀ token ∈ (significant item).takeWhile fun token => token.isKeyword
        .lateral, token.isKeyword .lateral = true := by
    intro token htoken
    have hkeyword := List.mem_takeWhile_imp htoken
    exact hkeyword
  have hrest : ∀ first ∈
        ((significant item).dropWhile fun token => token.isKeyword .lateral).head?,
      first.isKeyword .lateral = false := by
    intro first hfirst
    have hstops := List.head?_dropWhile_not (·.isKeyword .lateral) (significant item)
    rwa [hfirst] at hstops
  rw [TableUse.ofTokens?, TableUse.ofItem?, ← hsplit,
    TableUse.dropWhile_ofTokens hlaterals hrest] at h
  split at h
  · next first pieces hpieces =>
    obtain ⟨tail, htail, -⟩ := Piece.exists_of_ofTokens_eq_single_cons hpieces
    have hidentifier : first.isIdentifier = true := by
      by_contra hnot
      simp [hnot] at h
    obtain ⟨dotted, parts, rest, rfl, hparts, hends⟩ := exists_writesParts tail
    refine ⟨⟨first, parts, rest⟩, hidentifier, ⟨_, dotted, ?_, hlaterals, hparts⟩,
      hends⟩
    rw [← htail, hsplit]
  · exact absurd h (by simp)

theorem mentionedBy_iff {schema : String} {mention : TableMention} :
    name.MentionedBy schema mention ↔
      TableUse.mentionOf schema name.first name.parts = mention := by
  constructor
  · rintro ⟨init, last, hname, rfl⟩
    have hlast := congrArg List.getLast? hname
    rw [List.getLast?_cons, List.getLast?_concat, Option.some_inj] at hlast
    rw [TableUse.mentionOf, hname, hlast, List.dropLast_concat]
  · rintro rfl
    refine ⟨(name.first :: name.parts).dropLast, name.parts.getLast?.getD name.first,
      ?_, rfl⟩
    have hlast : name.parts.getLast?.getD name.first ∈
        (name.first :: name.parts).getLast? := by
      rw [List.getLast?_cons, Option.mem_some_iff]
    rw [List.dropLast_append_getLast? _ hlast]

end ItemName

/-- An item of a list of tables is read as it is specified. -/
theorem TableUse.ofTokens?_eq_some_iff {schema : String} {visible : List String}
    {item : List Token} {use : TableUse} :
    ofTokens? schema visible item = some use ↔ Reads schema visible item use := by
  constructor
  · intro h
    obtain ⟨name, hname⟩ := ItemName.exists_begins h
    obtain ⟨hcall, hcommon, rfl⟩ := hname.ofTokens?_eq_some_iff.1 h
    exact ⟨name, hname, hcall, hcommon, ItemName.mentionedBy_iff.2 rfl,
      fun aliasName => alias?_ofTokens_eq_some_iff⟩
  · rintro ⟨name, hname, hcall, hcommon, hmention, halias⟩
    refine hname.ofTokens?_eq_some_iff.2 ⟨hcall, hcommon, ?_⟩
    have hsame : TableUse.alias? (Piece.ofTokens name.rest) = use.aliasName :=
      Option.ext fun aliasName =>
        alias?_ofTokens_eq_some_iff.trans (halias aliasName).symm
    rw [ItemName.mentionedBy_iff.1 hmention, hsame]

/-! ## The items of a list -/

theorem TableUse.ofItem?_significant (schema : String) (visible : List String)
    (tokens : List Token) :
    ofItem? schema visible (Piece.significant (Piece.ofTokens tokens)) =
      ofTokens? schema visible tokens := by
  have hpieces : Relayout.stripped.pieces (Piece.ofTokens tokens) =
      (Piece.significant (Piece.ofTokens tokens)).map Relayout.stripped.piece := by
    rw [Relayout.pieces, Piece.significant]
    congr 2
    funext piece
    cases piece <;> rfl
  have huse : ∀ use : Option TableUse, use.map Relayout.stripped.use = use :=
    fun use => Option.map_id_apply
  rw [ofTokens?, ← Relayout.tokens_stripped, Relayout.ofTokens_tokens, hpieces,
    Relayout.ofItem?_map, huse]

/-- The uses of a list of tables are those of its items, and the items are what stands
between the commas at depth 0. -/
theorem TableUse.ofBody_eq (schema : String) (visible : List String)
    (body : List Token) :
    ofBody schema visible body =
      (cutAt .comma 0 body).filterMap (ofTokens? schema visible) := by
  rw [ofBody, Piece.commaItems_eq_map, cutAt_eq_splitOnP (by decide),
    List.filterMap_map, List.filterMap_map]
  apply List.filterMap_congr
  intro part hpart
  obtain ⟨earlier, later, hsplit⟩ := Script.isInfix_of_mem_splitOnP hpart
  rw [List.append_assoc] at hsplit
  have hpieces := Piece.ofTokens_flatMap_of_stretch hsplit.symm
  rw [Function.comp_apply, Function.comp_apply, ← ofItem?_significant, hpieces]

/-- A statement uses the tables of its clauses, one clause after the other. A `FROM`
or `JOIN` clause uses the tables that its items read, in their order, and then those
of the statements nested in it. -/
theorem Statement.tableUses_of_listsTables {clause : Clause Statement}
    (hlists : clause.kind.listsTables = true) (schema : String)
    (visible : List String) (statement : Statement) :
    statement.tableUses schema visible =
        statement.clauses.flatMap (statement.usesIn schema visible) ∧
      statement.usesIn schema visible clause =
        (cutAt .comma 0 clause.body).filterMap
            (TableUse.ofTokens? schema (statement.commonTables ++ visible)) ++
          clause.nested.flatMap
            (·.tableUses schema (statement.commonTables ++ visible)) ∧
      ∀ item use,
        TableUse.ofTokens? schema (statement.commonTables ++ visible) item =
          some use ↔
        TableUse.Reads schema (statement.commonTables ++ visible) item use := by
  have hkind : clause.kind ≠ .with := by
    intro hwith
    rw [hwith] at hlists
    exact Bool.noConfusion hlists
  refine ⟨tableUses_eq schema visible statement, ?_,
    fun item use => TableUse.ofTokens?_eq_some_iff⟩
  rw [usesIn, if_neg hkind, if_pos hlists, TableUse.ofBody_eq]

def itemScript : String :=
  "with w as (select 1) select * from lateral a.b.c as x, f(1) g, W, d. u, " ++
    "(select * from v) y, s. ."

theorem Statement.tableUses_of_listsTables_itemScript :
    ∃ clause ∈ (ofTokens (Token.tokenize itemScript)).clauses, clause.kind = .from ∧
      ((ofTokens (Token.tokenize itemScript)).usesIn "default" [] clause).map
          (fun use => (use.mention.fullName, use.aliasName)) =
        [("b.c", some "x"), ("d.u", none), ("default.s", none),
          ("default.v", none)] := by
  refine ⟨(ofTokens (Token.tokenize itemScript)).clauses.get ⟨2, by decide +kernel⟩,
    List.get_mem _ _, by decide +kernel, ?_⟩
  rw [(tableUses_of_listsTables (by decide +kernel) "default" []
    (ofTokens (Token.tokenize itemScript))).2.1]
  decide +kernel

end SqlOutline
