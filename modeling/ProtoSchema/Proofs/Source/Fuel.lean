import ProtoSchema.Proofs.Source.Progress

/-!
Every reading loop ends within its fuel, and every declaration is read within the tokens.
-/

namespace ProtoSchema

namespace Parser

section Block

variable (T : ParserInput)

/-- What each function of the message block reads with fuel `n`: from a position where the fuel
covers twice the tokens left and the function's depth in the block, it raises no internal error
and takes at least one token. -/
structure BlockReads (n : Nat) : Prop where
  messageBlock : ∀ pos, 2 * (T.tokens.size - pos) + 4 ≤ n → Reads T 1 pos (messageBlock n)
  messageBody : ∀ acc pos, 2 * (T.tokens.size - pos) + 5 ≤ n → Reads T 1 pos (messageBody n acc)
  messageElement : ∀ pos, 2 * (T.tokens.size - pos) + 4 ≤ n → Reads T 1 pos (messageElement n)
  message : ∀ pos, 2 * (T.tokens.size - pos) + 3 ≤ n → Reads T 1 pos (message n)
  fieldOrGroup : ∀ site pos, 2 * (T.tokens.size - pos) + 3 ≤ n →
    Reads T 1 pos (fieldOrGroup n site)
  group : ∀ start lbl site pos, start ≤ pos → 2 * (T.tokens.size - pos) + 2 ≤ n →
    Reads T 1 pos (group n start lbl site)
  oneofBody : ∀ acc pos, 2 * (T.tokens.size - pos) + 5 ≤ n → Reads T 1 pos (oneofBody n acc)
  oneof : ∀ pos, 2 * (T.tokens.size - pos) + 3 ≤ n → Reads T 1 pos (oneof n)
  extendBody : ∀ acc pos, 2 * (T.tokens.size - pos) + 5 ≤ n → Reads T 1 pos (extendBody n acc)
  extend : ∀ pos, 2 * (T.tokens.size - pos) + 3 ≤ n → Reads T 1 pos (extend n)

theorem blockReads_zero : BlockReads T 0 where
  messageBlock _ h := by omega
  messageBody _ _ h := by omega
  messageElement _ h := by omega
  message _ h := by omega
  fieldOrGroup _ _ h := by omega
  group _ _ _ _ _ h := by omega
  oneofBody _ _ h := by omega
  oneof _ h := by omega
  extendBody _ _ h := by omega
  extend _ h := by omega

variable {T} {n : Nat}

/-! Each function of the block with one more unit of fuel reaches the others with one unit
less, after taking tokens or one level down in the block, so the bound it was given covers
theirs. -/

theorem messageBlock_reads_succ (ih : BlockReads T n) (pos : Nat)
    (h : 2 * (T.tokens.size - pos) + 4 ≤ n + 1) : Reads T 1 pos (messageBlock (n + 1)) := by
  rw [Parser.messageBlock]
  exact Reads.bind_take (expectSymbol_reads T _ pos) fun _ p₁ _ _ _ =>
    (ih.messageBody [] p₁ (by omega)).weaken

theorem messageBody_reads_succ (ih : BlockReads T n) (acc : List MessageElement) (pos : Nat)
    (h : 2 * (T.tokens.size - pos) + 5 ≤ n + 1) : Reads T 1 pos (messageBody (n + 1) acc) := by
  rw [Parser.messageBody]
  refine Reads.eatSymbol_bind '}' (fun _ => Reads.pure _) (Reads.peek_bind ?_)
  refine Reads.ite (fun _ => Reads.failHere_bind (by decide)) fun _ => ?_
  refine Reads.eatSymbol_bind ';' (fun _ => (ih.messageBody acc (pos + 1) (by omega)).weaken) ?_
  exact Reads.bind_take (ih.messageElement pos (by omega)) fun _ p₁ _ _ _ =>
    (ih.messageBody _ p₁ (by omega)).weaken

theorem messageElement_reads_succ (ih : BlockReads T n) (pos : Nat)
    (h : 2 * (T.tokens.size - pos) + 4 ≤ n + 1) : Reads T 1 pos (messageElement (n + 1)) := by
  rw [Parser.messageElement]
  dsimp only
  -- the first tokens pick the statement, and each statement takes at least one token
  refine Reads.isSymbolAt_bind _ _ fun _ _ => ?_
  refine Reads.isKeyword_bind _ fun _ _ => Reads.isIdentAt_bind _ fun _ _ => ?_
  refine Reads.ite (fun _ => (ih.message pos (by omega)).map _) fun _ => ?_
  refine Reads.isKeyword_bind _ fun _ _ => Reads.isIdentAt_bind _ fun _ _ => ?_
  refine Reads.ite (fun _ => (enum_reads T pos).map _) fun _ => ?_
  refine Reads.isKeyword_bind _ fun _ _ => ?_
  refine Reads.ite (fun _ => (ih.extend pos (by omega)).map _) fun _ => ?_
  refine Reads.isKeyword_bind _ fun _ _ => ?_
  refine Reads.ite (fun _ => (extensionRanges_reads T pos).map _) fun _ => ?_
  refine Reads.isKeyword_bind _ fun _ _ => ?_
  refine Reads.ite (fun _ => (reserved_reads T false pos).map _) fun _ => ?_
  refine Reads.isKeyword_bind _ fun _ _ => ?_
  refine Reads.ite (fun _ => (optionStatement_reads T pos).map _) fun _ => ?_
  refine Reads.isKeyword_bind _ fun _ _ => Reads.isIdentAt_bind _ fun _ _ =>
    Reads.isSymbolAt_bind _ _ fun _ _ => ?_
  refine Reads.ite (fun _ => (ih.oneof pos (by omega)).map _) fun _ => ?_
  refine Reads.isKeyword_bind _ fun _ _ => Reads.isSymbolAt_bind _ _ fun _ _ => ?_
  refine Reads.ite (fun _ => (mapField_reads T pos).map _) fun _ => ?_
  exact Reads.bind_take (ih.fieldOrGroup .message pos (by omega)) fun x _ _ _ _ => by
    cases x <;> exact Reads.pure _

theorem message_reads_succ (ih : BlockReads T n) (pos : Nat)
    (h : 2 * (T.tokens.size - pos) + 3 ≤ n + 1) : Reads T 1 pos (message (n + 1)) := by
  rw [Parser.message]
  refine Reads.pos_bind (Reads.bind_take (expectKeyword_reads T _ pos) fun _ p₁ _ _ _ => ?_)
  refine Reads.bind_take (ident_reads T _ p₁) fun _ p₂ _ _ _ => ?_
  refine Reads.bind_take (ih.messageBlock p₂ (by omega)) fun _ p₃ _ _ _ => ?_
  exact (decl_reads T (by omega) (by omega)).map _

theorem fieldOrGroup_reads_succ (ih : BlockReads T n) (site : FieldSite) (pos : Nat)
    (h : 2 * (T.tokens.size - pos) + 3 ≤ n + 1) : Reads T 1 pos (fieldOrGroup (n + 1) site) := by
  rw [Parser.fieldOrGroup]
  refine Reads.pos_bind (Reads.bind_keep (label_reads T pos) fun lbl p₁ _ _ _ => ?_)
  refine Reads.bind_keep (checkLabel_reads T site lbl p₁) fun _ p₂ _ _ _ => ?_
  refine Reads.isKeyword_bind _ fun _ _ => Reads.isSymbolAt_bind _ _ fun _ _ => ?_
  refine Reads.ite (fun _ => Reads.failHere_bind (by cases site <;> decide)) fun _ => ?_
  refine Reads.isKeyword_bind _ fun _ _ => Reads.isIdentAt_bind _ fun _ _ =>
    Reads.isSymbolAt_bind _ _ fun _ _ => ?_
  refine Reads.ite (fun _ => (ih.group pos lbl site p₂ (by omega) (by omega)).map _) fun _ => ?_
  refine Reads.dialect_bind (Reads.ite (fun _ => Reads.failHere_bind (by decide)) fun _ => ?_)
  exact (plainField_reads T pos lbl (by omega)).map _

theorem group_reads_succ (ih : BlockReads T n) (start : Nat) (lbl : Option (Spanned LabelKind))
    (site : FieldSite) (pos : Nat) (hstart : start ≤ pos) (h : 2 * (T.tokens.size - pos) + 2 ≤ n + 1) :
    Reads T 1 pos (group (n + 1) start lbl site) := by
  rw [Parser.group]
  refine Reads.bind_take (expectKeyword_reads T _ pos) fun kw p₁ _ _ _ => Reads.dialect_bind ?_
  refine Reads.ite (fun _ => Reads.failAt_bind (by decide)) fun _ => ?_
  refine Reads.ite (fun _ => Reads.failAt_bind (by decide)) fun _ => ?_
  refine Reads.bind_take (ident_reads T _ p₁) fun name p₂ _ _ _ => ?_
  refine Reads.ite (fun _ => Reads.failAt_bind (by decide)) fun _ => ?_
  refine Reads.bind_take (expectSymbol_reads T _ p₂) fun _ p₃ _ _ _ => ?_
  refine Reads.bind_take (unsignedInt_reads T _ p₃) fun _ p₄ _ _ _ => ?_
  refine Reads.bind_keep (compactOptions_reads T p₄) fun _ p₅ _ _ _ => ?_
  refine Reads.bind_take (ih.messageBlock p₅ (by omega)) fun _ p₆ _ _ _ => ?_
  exact (decl_reads T (by omega) (by omega)).map _

theorem oneofBody_reads_succ (ih : BlockReads T n) (acc : List OneofElement) (pos : Nat)
    (h : 2 * (T.tokens.size - pos) + 5 ≤ n + 1) : Reads T 1 pos (oneofBody (n + 1) acc) := by
  rw [Parser.oneofBody]
  refine Reads.eatSymbol_bind '}' (fun _ => Reads.pure _) (Reads.peek_bind ?_)
  refine Reads.ite (fun _ => Reads.failHere_bind (by decide)) fun _ => ?_
  refine Reads.eatSymbol_bind ';' (fun _ => (ih.oneofBody acc (pos + 1) (by omega)).weaken) ?_
  refine Reads.isKeyword_bind _ fun _ _ => Reads.isSymbolAt_bind _ _ fun _ _ => ?_
  refine Reads.ite (fun _ => Reads.bind_take (optionStatement_reads T pos) fun _ p₁ _ _ _ =>
    (ih.oneofBody _ p₁ (by omega)).weaken) fun _ => ?_
  exact Reads.bind_take (ih.fieldOrGroup .oneof pos (by omega)) fun x p₁ _ _ _ => by
    cases x <;> exact (ih.oneofBody _ p₁ (by omega)).weaken

theorem oneof_reads_succ (ih : BlockReads T n) (pos : Nat)
    (h : 2 * (T.tokens.size - pos) + 3 ≤ n + 1) : Reads T 1 pos (oneof (n + 1)) := by
  rw [Parser.oneof]
  refine Reads.pos_bind (Reads.bind_take (expectKeyword_reads T _ pos) fun _ p₁ _ _ _ => ?_)
  refine Reads.bind_take (ident_reads T _ p₁) fun _ p₂ _ _ _ => ?_
  refine Reads.bind_take (expectSymbol_reads T _ p₂) fun _ p₃ _ _ _ => ?_
  refine Reads.bind_take (ih.oneofBody [] p₃ (by omega)) fun _ p₄ _ _ _ => ?_
  exact (decl_reads T (by omega) (by omega)).map _

theorem extendBody_reads_succ (ih : BlockReads T n) (acc : List ExtendElement) (pos : Nat)
    (h : 2 * (T.tokens.size - pos) + 5 ≤ n + 1) : Reads T 1 pos (extendBody (n + 1) acc) := by
  rw [Parser.extendBody]
  refine Reads.eatSymbol_bind '}' (fun _ => Reads.pure _) (Reads.peek_bind ?_)
  refine Reads.ite (fun _ => Reads.failHere_bind (by decide)) fun _ => ?_
  refine Reads.eatSymbol_bind ';' (fun _ => (ih.extendBody acc (pos + 1) (by omega)).weaken) ?_
  exact Reads.bind_take (ih.fieldOrGroup .extend pos (by omega)) fun _ p₁ _ _ _ =>
    (ih.extendBody _ p₁ (by omega)).weaken

theorem extend_reads_succ (ih : BlockReads T n) (pos : Nat)
    (h : 2 * (T.tokens.size - pos) + 3 ≤ n + 1) : Reads T 1 pos (extend (n + 1)) := by
  rw [Parser.extend]
  refine Reads.pos_bind (Reads.bind_take (expectKeyword_reads T _ pos) fun _ p₁ _ _ _ => ?_)
  refine Reads.bind_take (typeName_reads T p₁) fun _ p₂ _ _ _ => ?_
  refine Reads.bind_take (expectSymbol_reads T _ p₂) fun _ p₃ _ _ _ => ?_
  refine Reads.bind_take (ih.extendBody [] p₃ (by omega)) fun _ p₄ _ _ _ => ?_
  exact (decl_reads T (by omega) (by omega)).map _

theorem blockReads_succ (ih : BlockReads T n) : BlockReads T (n + 1) :=
  ⟨messageBlock_reads_succ ih, messageBody_reads_succ ih, messageElement_reads_succ ih,
    message_reads_succ ih, fieldOrGroup_reads_succ ih, group_reads_succ ih, oneofBody_reads_succ ih,
    oneof_reads_succ ih, extendBody_reads_succ ih, extend_reads_succ ih⟩

theorem blockReads (T : ParserInput) (n : Nat) : BlockReads T n := by
  induction n with
  | zero => exact blockReads_zero T
  | succ n ih => exact blockReads_succ ih

end Block

/-! ### The file level -/

section File

variable (T : ParserInput)

theorem methodType_reads (pos : Nat) : Reads T 1 pos methodType := by
  rw [Parser.methodType]
  refine Reads.bind_take (expectSymbol_reads T _ pos) fun _ p₁ _ _ _ => ?_
  refine Reads.isKeyword_bind _ fun _ _ => Reads.isIdentAt_bind _ fun _ _ =>
    Reads.isSymbolAt_bind _ _ fun _ _ => ?_
  dsimp only
  refine Reads.ite (fun _ => Reads.bind_take (next_reads T p₁) fun _ p₂ _ _ _ => Reads.stay rfl ?_)
    fun _ => Reads.stay rfl ?_
  all_goals
    refine Reads.bind_take (typeName_reads T _) fun _ p₃ _ _ _ => ?_
    exact Reads.bind_take (expectSymbol_reads T _ p₃) fun _ _ _ _ _ => Reads.pure _

theorem methodOptions_reads (n : Nat) :
    ∀ acc pos, T.tokens.size - pos < n → Reads T 1 pos (methodOptions n acc) := by
  induction n with
  | zero => intro _ _ h; omega
  | succ n ih =>
    intro acc pos h
    rw [Parser.methodOptions]
    refine Reads.eatSymbol_bind '}' (fun _ => Reads.pure _) (Reads.peek_bind ?_)
    refine Reads.ite (fun _ => Reads.failHere_bind (by decide)) fun _ => ?_
    refine Reads.eatSymbol_bind ';' (fun _ => (ih acc (pos + 1) (by omega)).weaken) ?_
    refine Reads.isKeyword_bind _ fun _ _ => Reads.ite (fun _ => ?_) fun _ => Reads.failHere (by decide)
    exact Reads.bind_take (optionStatement_reads T pos) fun _ p₁ _ _ _ => (ih _ p₁ (by omega)).weaken

theorem method_reads (pos : Nat) : Reads T 1 pos method := by
  rw [Parser.method]
  refine Reads.pos_bind (Reads.bind_take (expectKeyword_reads T _ pos) fun _ p₁ _ _ _ => ?_)
  refine Reads.bind_take (ident_reads T _ p₁) fun _ p₂ _ _ _ => ?_
  refine Reads.bind_take (methodType_reads T p₂) fun _ p₃ _ _ _ => ?_
  refine Reads.bind_take (expectKeyword_reads T _ p₃) fun _ p₄ _ _ _ => ?_
  refine Reads.bind_take (methodType_reads T p₄) fun _ p₅ _ _ _ => ?_
  refine Reads.eatSymbol_bind '{' (fun _ => Reads.remaining_bind ?_) ?_
  · refine Reads.bind_take (methodOptions_reads T _ [] (p₅ + 1) (by omega)) fun _ p₆ _ _ _ => ?_
    refine Reads.eatSymbol_bind ';' (fun _ => Reads.stay rfl ?_) (Reads.stay rfl ?_)
    · exact (decl_reads T (by omega) (by omega)).map _
    · exact (decl_reads T (by omega) (by omega)).map _
  · refine Reads.bind_take (expectSymbol_reads T _ p₅) fun _ p₆ _ _ _ => Reads.stay rfl ?_
    exact (decl_reads T (by omega) (by omega)).map _

theorem serviceBody_reads (n : Nat) :
    ∀ acc pos, T.tokens.size - pos < n → Reads T 1 pos (serviceBody n acc) := by
  induction n with
  | zero => intro _ _ h; omega
  | succ n ih =>
    intro acc pos h
    rw [Parser.serviceBody]
    refine Reads.eatSymbol_bind '}' (fun _ => Reads.pure _) (Reads.peek_bind ?_)
    refine Reads.ite (fun _ => Reads.failHere_bind (by decide)) fun _ => ?_
    refine Reads.eatSymbol_bind ';' (fun _ => (ih acc (pos + 1) (by omega)).weaken) ?_
    refine Reads.isKeyword_bind _ fun _ _ => Reads.ite (fun _ => ?_) fun _ => ?_
    · exact Reads.bind_take (optionStatement_reads T pos) fun _ p₁ _ _ _ => (ih _ p₁ (by omega)).weaken
    refine Reads.isKeyword_bind _ fun _ _ => Reads.ite (fun _ => ?_) fun _ => Reads.failHere (by decide)
    exact Reads.bind_take (method_reads T pos) fun _ p₁ _ _ _ => (ih _ p₁ (by omega)).weaken

theorem service_reads (pos : Nat) : Reads T 1 pos service := by
  rw [Parser.service]
  refine Reads.pos_bind (Reads.bind_take (expectKeyword_reads T _ pos) fun _ p₁ _ _ _ => ?_)
  refine Reads.bind_take (ident_reads T _ p₁) fun _ p₂ _ _ _ => ?_
  refine Reads.bind_take (expectSymbol_reads T _ p₂) fun _ p₃ _ _ _ => Reads.remaining_bind ?_
  refine Reads.bind_take (serviceBody_reads T _ [] p₃ (by omega)) fun _ p₄ _ _ _ => ?_
  exact (decl_reads T (by omega) (by omega)).map _

theorem importStatement_reads (pos : Nat) : Reads T 1 pos importStatement := by
  rw [Parser.importStatement]
  refine Reads.pos_bind (Reads.bind_take (expectKeyword_reads T _ pos) fun _ p₁ _ _ _ => ?_)
  refine Reads.isKeyword_bind _ fun _ h₁ => Reads.isKeyword_bind _ fun _ h₂ => ?_
  refine Reads.ite (fun h => (Reads.bump_bind (h₁ h) (Reads.stay rfl ?_)).weaken) fun _ =>
    Reads.ite (fun h => (Reads.bump_bind (h₂ h) (Reads.stay rfl ?_)).weaken) fun _ => Reads.stay rfl ?_
  all_goals
    refine Reads.bind_take (utf8String_reads T _ _) fun _ p₂ _ _ _ => ?_
    refine Reads.bind_take (expectSymbol_reads T _ p₂) fun _ p₃ _ _ _ => ?_
    exact (decl_reads T (by omega) (by omega)).map _

theorem dialectStatement_reads (pos : Nat) : Reads T 0 pos dialectStatement := by
  rw [Parser.dialectStatement]
  refine Reads.isKeyword_bind _ fun b hb => Reads.ite (fun _ => Reads.pure _) fun hne => ?_
  have hlt : pos < T.tokens.size := hb (by simpa using hne)
  refine Reads.pos_bind (Reads.bump_bind hlt ?_).weaken
  refine Reads.bind_take (expectSymbol_reads T _ (pos + 1)) fun _ p₁ _ _ _ => ?_
  refine Reads.bind_take (utf8String_reads T _ p₁) fun value p₂ _ _ _ => ?_
  refine Reads.ite (fun _ => Reads.stay rfl ?_) fun _ =>
    Reads.ite (fun _ => Reads.stay rfl ?_) fun _ => Reads.failAt_bind (not_internal_of_head (by simp))
  all_goals
    refine Reads.bind_take (expectSymbol_reads T _ p₂) fun _ p₃ _ _ _ => ?_
    exact (decl_reads T (by omega) (by omega)).map _

theorem topLevel_reads (n : Nat) :
    ∀ file pos, T.tokens.size - pos < n → Reads T 0 pos (topLevel n file) := by
  induction n with
  | zero => intro _ _ h; omega
  | succ n ih =>
    intro file pos h
    rw [Parser.topLevel]
    refine Reads.peek_bind ?_
    cases htok : T.tokens[pos]? with
    | none => exact Reads.pure _
    | some tok =>
      have hlt : pos < T.tokens.size := lt_size_of_getElem? htok
      dsimp only
      -- every statement takes at least one token before the rest of the file is read
      split
      · exact Reads.weaken (Reads.bump_bind hlt (ih _ _ (by omega)))
      · refine Reads.ite (fun _ => Reads.failHere_bind (by decide)) fun _ => ?_
        refine Reads.pos_bind (Reads.weaken (Reads.bump_bind hlt ?_))
        refine Reads.bind_take (fullIdent_reads T _ (pos + 1)) fun _ p₁ _ _ _ => ?_
        refine Reads.bind_take (expectSymbol_reads T _ p₁) fun _ p₂ _ _ _ => ?_
        exact Reads.bind_keep (decl_reads T (by omega) (by omega)) fun _ p₃ _ _ _ => ih _ p₃ (by omega)
      · exact Reads.bind_take (importStatement_reads T pos) fun _ p₁ _ _ _ => ih _ p₁ (by omega)
      · exact Reads.bind_take (optionStatement_reads T pos) fun _ p₁ _ _ _ => ih _ p₁ (by omega)
      · exact Reads.fuelForRest_bind (Reads.bind_take ((blockReads T _).message pos (by omega))
          fun _ p₁ _ _ _ => ih _ p₁ (by omega))
      · exact Reads.bind_take (enum_reads T pos) fun _ p₁ _ _ _ => ih _ p₁ (by omega)
      · exact Reads.bind_take (service_reads T pos) fun _ p₁ _ _ _ => ih _ p₁ (by omega)
      · exact Reads.fuelForRest_bind (Reads.bind_take ((blockReads T _).extend pos (by omega))
          fun _ p₁ _ _ _ => ih _ p₁ (by omega))
      · exact Reads.failHere (by decide)
      · exact Reads.failHere (by decide)

theorem schemaFile_reads (span : Span) (pos : Nat) : Reads T 0 pos (schemaFile span) := by
  rw [Parser.schemaFile]
  refine Reads.bind_keep (dialectStatement_reads T pos) fun r p₁ _ _ _ => ?_
  rcases r with _ | ⟨d, decl⟩
  · exact Reads.remaining_bind (topLevel_reads T _ _ p₁ (by omega))
  · exact Reads.withReader rfl (Reads.remaining_bind (topLevel_reads _ _ _ p₁ (by omega)))

end File

end Parser

/-- Reading a schema ends with the file or with a real error: the token reader and every reading
loop of the parser finish within the fuel they are given, and every declaration lies within the
tokens. -/
theorem parseSchema_settles (text : String) :
    (∃ file, parseSchema text = .ok file) ∨ ∃ e, parseSchema text = .error e ∧ ¬ e.Internal := by
  unfold parseSchema parseSchemaChars
  cases htok : tokenize text.toList with
  | error e => exact .inr ⟨e, rfl, tokenize_sound htok⟩
  | ok r =>
    obtain ⟨tokens, span⟩ := r
    have hread := Parser.schemaFile_reads { tokens } span 0
    cases hrun : Parser.schemaFile span { tokens } 0 with
    | error e =>
      have hrun' : ((Parser.schemaFile span).run { tokens }).run 0 = .error e := hrun
      exact .inr ⟨e, by dsimp only [bind, Except.bind]; rw [hrun'], hread.sound e hrun⟩
    | ok r =>
      have hrun' : ((Parser.schemaFile span).run { tokens }).run 0 = .ok r := hrun
      exact .inl ⟨r.1, by dsimp only [bind, Except.bind]; rw [hrun']; rfl⟩

end ProtoSchema
