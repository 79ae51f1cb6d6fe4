import ProtoSchema.Proofs.Source.Package

/-!
How the parser moves along the tokens. `Reads T k pos p` says that the step `p`, read from
position `pos`, raises no internal error (a loop out of fuel, or a declaration read past the
last token), and that when it succeeds it has moved on by at least `k` tokens and, if it moved at
all, ends within the tokens: it only ever takes a token it has seen.

Each step of the parser gets one such lemma, built from those of the steps it runs. A step that
takes a token lowers the number of tokens left, and each loop is given fuel for the tokens left,
so a loop's lemma needs only that bound on its fuel.

Main statements: `Reads.bind_keep`, `Reads.bind_take`, and the lemmas of the steps,
`optionStatement_reads` and the like.
-/

namespace ProtoSchema

def ParseError.Internal (e : ParseError) : Prop :=
  e.message = ParseError.fuelMessage ∨ e.message = ParseError.rangeMessage

namespace Parser

variable {α β : Type} {T : ParserInput}

/-- Read from `pos`, the step raises no internal error, and when it succeeds it has moved on by at
least `k` tokens, ending within the tokens if it moved. -/
structure Reads (T : ParserInput) (k pos : Nat) (p : Parser α) : Prop where
  sound : ∀ e, p T pos = .error e → ¬ e.Internal
  moves : ∀ a pos', p T pos = .ok (a, pos') → pos + k ≤ pos' ∧ (pos < pos' → pos' ≤ T.tokens.size)

theorem bind_eq_error {x : Parser α} {f : α → Parser β} {pos : Nat} {e : ParseError} :
    (x >>= f) T pos = .error e ↔
      x T pos = .error e ∨ ∃ a pos', x T pos = .ok (a, pos') ∧ f a T pos' = .error e := by
  show (x T pos >>= fun p => f p.1 T p.2) = _ ↔ _
  cases x T pos with
  | error e' => simp [bind, Except.bind]
  | ok p =>
    simp only [bind, Except.bind, reduceCtorEq, false_or, Except.ok.injEq]
    constructor
    · exact fun h => ⟨p.1, p.2, rfl, h⟩
    · rintro ⟨a, pos', hp, h⟩
      cases hp
      exact h

theorem bind_run {x : Parser α} {a : α} {pos pos' : Nat} (h : x T pos = .ok (a, pos'))
    (f : α → Parser β) : (x >>= f) T pos = f a T pos' := by
  show (x T pos >>= fun p => f p.1 T p.2) = _
  rw [h]
  rfl

theorem bump_run {pos : Nat} : bump T pos = .ok ((), pos + 1) := rfl

theorem lt_size_of_getElem? {i : Nat} {t : Token} (h : T.tokens[i]? = some t) : i < T.tokens.size :=
  (Array.getElem?_eq_some_iff.mp h).1

theorem lookahead_run {n pos : Nat} {f : Option Token → Parser Bool} (hnone : f none T pos = .ok (false, pos))
    (hsome : ∀ t, ∃ b, f (some t) T pos = .ok (b, pos)) :
    ∃ b, (peekAt n >>= f) T pos = .ok (b, pos) ∧ (b = true → pos + n < T.tokens.size) := by
  rw [bind_run rfl]
  cases h : T.tokens[pos + n]? with
  | none => exact ⟨false, hnone, fun hb => absurd hb Bool.false_ne_true⟩
  | some t =>
    obtain ⟨b, hb⟩ := hsome t
    exact ⟨b, hb, fun _ => lt_size_of_getElem? h⟩

theorem isSymbolAt_run (T : ParserInput) (n : Nat) (c : Char) (pos : Nat) :
    ∃ b, isSymbolAt n c T pos = .ok (b, pos) ∧ (b = true → pos + n < T.tokens.size) := by
  refine lookahead_run rfl fun t => ?_
  obtain ⟨kind, _⟩ := t
  cases kind <;> exact ⟨_, rfl⟩

theorem isIdentAt_run (T : ParserInput) (n : Nat) (pos : Nat) :
    ∃ b, isIdentAt n T pos = .ok (b, pos) ∧ (b = true → pos + n < T.tokens.size) := by
  refine lookahead_run rfl fun t => ?_
  obtain ⟨kind, _⟩ := t
  cases kind <;> exact ⟨_, rfl⟩

theorem isKeywordAt_run (T : ParserInput) (n : Nat) (kw : String) (pos : Nat) :
    ∃ b, isKeywordAt n kw T pos = .ok (b, pos) ∧ (b = true → pos + n < T.tokens.size) := by
  refine lookahead_run rfl fun t => ?_
  obtain ⟨kind, _⟩ := t
  cases kind <;> exact ⟨_, rfl⟩

theorem eatSymbol_run (T : ParserInput) (c : Char) (pos : Nat) :
    (eatSymbol c T pos = .ok (true, pos + 1) ∧ pos < T.tokens.size) ∨
      eatSymbol c T pos = .ok (false, pos) := by
  obtain ⟨b, h, hb⟩ := isSymbolAt_run T 0 c pos
  unfold eatSymbol isSymbol
  rw [bind_run h]
  cases b with
  | false => exact .inr rfl
  | true => exact .inl ⟨rfl, hb rfl⟩

theorem failHere_message {message : String} {pos : Nat} {e : ParseError}
    (h : @failHere α message T pos = .error e) : e.message = message := by
  cases h
  rfl

theorem not_internal_of_head {message : String} (h : message.toList.head? ≠ some 'O') :
    ¬ (message = ParseError.fuelMessage ∨ message = ParseError.rangeMessage) := by
  rintro (rfl | rfl) <;> exact h rfl

namespace Reads

variable {p : Parser α} {f : α → Parser β} {k j pos : Nat}

theorem mono (h : Reads T k pos p) (hjk : j ≤ k) : Reads T j pos p :=
  ⟨h.sound, fun a pos' hp => by have := h.moves a pos' hp; omega⟩

theorem weaken (h : Reads T 1 pos p) : Reads T 0 pos p :=
  h.mono (Nat.zero_le 1)

theorem congr {q : Parser α} (h : p T pos = q T pos) (hq : Reads T k pos q) : Reads T k pos p :=
  ⟨fun e he => hq.sound e (h ▸ he), fun a pos' hp => hq.moves a pos' (h ▸ hp)⟩

theorem pure (a : α) : Reads T 0 pos (Pure.pure a) := by
  refine ⟨fun e he => ?_, fun b pos' hb => ?_⟩
  · cases he
  · cases hb
    omega

theorem map (hp : Reads T k pos p) (g : α → β) : Reads T k pos (p >>= fun a => Pure.pure (g a)) := by
  refine ⟨fun e he => ?_, fun b pos' hb => ?_⟩
  · rcases bind_eq_error.mp he with he | ⟨a, pos', -, he⟩
    · exact hp.sound e he
    · cases he
  · obtain ⟨a, pos'', ha, hb⟩ := bind_eq_ok.mp hb
    cases hb
    exact hp.moves a _ ha

theorem failHere {message : String}
    (h : ¬ (message = ParseError.fuelMessage ∨ message = ParseError.rangeMessage)) :
    Reads T k pos (@Parser.failHere α message) := by
  refine ⟨fun e he => ?_, fun a pos' ha => absurd ha (failHere_ne_ok _ _)⟩
  rw [ParseError.Internal, failHere_message he]
  exact h

theorem failAt {span : Span} {message : String}
    (h : ¬ (message = ParseError.fuelMessage ∨ message = ParseError.rangeMessage)) :
    Reads T k pos (@Parser.failAt α span message) := by
  refine ⟨fun e he => ?_, fun a pos' ha => by cases ha⟩
  cases he
  exact h

theorem failHere_bind {message : String} {f : α → Parser β}
    (h : ¬ (message = ParseError.fuelMessage ∨ message = ParseError.rangeMessage)) :
    Reads T k pos (Parser.failHere message >>= f) := by
  refine ⟨fun e he => ?_, fun b pos' hb => ?_⟩
  · rcases bind_eq_error.mp he with he | ⟨a, pos', ha, -⟩
    · exact (failHere h : Reads T 0 pos _).sound e he
    · exact absurd ha (failHere_ne_ok _ _)
  · obtain ⟨a, pos', ha, -⟩ := bind_eq_ok.mp hb
    exact absurd ha (failHere_ne_ok _ _)

theorem failAt_bind {span : Span} {message : String} {f : α → Parser β}
    (h : ¬ (message = ParseError.fuelMessage ∨ message = ParseError.rangeMessage)) :
    Reads T k pos (Parser.failAt span message >>= f) := by
  refine ⟨fun e he => ?_, fun b pos' hb => ?_⟩
  · rcases bind_eq_error.mp he with he | ⟨a, pos', ha, -⟩
    · exact (failAt h : Reads T 0 pos _).sound e he
    · cases ha
  · obtain ⟨a, pos', ha, -⟩ := bind_eq_ok.mp hb
    cases ha

theorem ite {c : Prop} [Decidable c] {x y : Parser α} (h₁ : c → Reads T k pos x) (h₂ : ¬ c → Reads T k pos y) :
    Reads T k pos (if c then x else y) := by
  by_cases hc : c
  · rw [if_pos hc]
    exact h₁ hc
  · rw [if_neg hc]
    exact h₂ hc

theorem ite_bind {c : Prop} [Decidable c] {x y : Parser α}
    (h : Reads T k pos ((if c then x else y) >>= f)) : Reads T k pos (if c then x >>= f else y >>= f) := by
  split
  · rename_i hc
    simpa only [hc, if_true] using h
  · rename_i hc
    simpa only [hc, if_false] using h

theorem step {a : α} {pos' : Nat} (h : p T pos = .ok (a, pos')) (hle : pos ≤ pos')
    (hin : pos < pos' → pos' ≤ T.tokens.size) (hf : Reads T j pos' (f a)) (hk : k ≤ pos' - pos + j) :
    Reads T k pos (p >>= f) := by
  refine ⟨fun e he => hf.sound e (bind_run h f ▸ he), fun b pos'' hb => ?_⟩
  have := hf.moves b pos'' (bind_run h f ▸ hb)
  omega

theorem stay {a : α} (h : p T pos = .ok (a, pos)) (hf : Reads T k pos (f a)) : Reads T k pos (p >>= f) :=
  step h (Nat.le_refl pos) (fun h => absurd h (Nat.lt_irrefl pos)) hf (by omega)

theorem bind_keep (hp : Reads T 0 pos p)
    (hf : ∀ a pos', p T pos = .ok (a, pos') → pos ≤ pos' → (pos < pos' → pos' ≤ T.tokens.size) →
      Reads T k pos' (f a)) : Reads T k pos (p >>= f) := by
  refine ⟨fun e he => ?_, fun b pos'' hb => ?_⟩
  · rcases bind_eq_error.mp he with he | ⟨a, pos', ha, he⟩
    · exact hp.sound e he
    · have := hp.moves a pos' ha
      exact (hf a pos' ha (by omega) this.2).sound e he
  · obtain ⟨a, pos', ha, hb⟩ := bind_eq_ok.mp hb
    have h₁ := hp.moves a pos' ha
    have h₂ := (hf a pos' ha (by omega) h₁.2).moves b pos'' hb
    omega

theorem bind_take (hp : Reads T 1 pos p)
    (hf : ∀ a pos', p T pos = .ok (a, pos') → pos < pos' → pos' ≤ T.tokens.size →
      Reads T (k - 1) pos' (f a)) : Reads T k pos (p >>= f) := by
  refine ⟨fun e he => ?_, fun b pos'' hb => ?_⟩
  · rcases bind_eq_error.mp he with he | ⟨a, pos', ha, he⟩
    · exact hp.sound e he
    · have := hp.moves a pos' ha
      exact (hf a pos' ha (by omega) (this.2 (by omega))).sound e he
  · obtain ⟨a, pos', ha, hb⟩ := bind_eq_ok.mp hb
    have h₁ := hp.moves a pos' ha
    have h₂ := (hf a pos' ha (by omega) (h₁.2 (by omega))).moves b pos'' hb
    omega

theorem pos_bind {f : Nat → Parser β} (hf : Reads T k pos (f pos)) : Reads T k pos (Parser.pos >>= f) :=
  stay rfl hf

theorem peekAt_bind (n : Nat) {f : Option Token → Parser β} (hf : Reads T k pos (f T.tokens[pos + n]?)) :
    Reads T k pos (peekAt n >>= f) :=
  stay rfl hf

theorem peek_bind {f : Option Token → Parser β} (hf : Reads T k pos (f T.tokens[pos]?)) :
    Reads T k pos (peek >>= f) :=
  peekAt_bind 0 hf

theorem remaining_bind {f : Nat → Parser β} (hf : Reads T k pos (f (T.tokens.size - pos))) :
    Reads T k pos (remaining >>= f) :=
  stay rfl hf

theorem dialect_bind {f : Dialect → Parser β} (hf : Reads T k pos (f T.dialect)) :
    Reads T k pos (dialect >>= f) :=
  stay rfl hf

theorem fuelForRest_bind {f : Nat → Parser β} (hf : Reads T k pos (f (4 * (T.tokens.size - pos) + 16))) :
    Reads T k pos (fuelForRest >>= f) :=
  stay rfl hf

theorem withReader {g : ParserInput → ParserInput} {x : Parser α} (hg : (g T).tokens = T.tokens)
    (h : Reads (g T) k pos x) : Reads T k pos (MonadWithReader.withReader g x) :=
  ⟨fun e he => h.sound e (withReader_run g x ▸ he),
    fun a pos' ha => hg ▸ h.moves a pos' (withReader_run g x ▸ ha)⟩

theorem bump_bind {f : Unit → Parser β} (hlt : pos < T.tokens.size) (hf : Reads T 0 (pos + 1) (f ())) :
    Reads T 1 pos (bump >>= f) :=
  step bump_run (Nat.le_succ pos) (fun _ => hlt) hf (by omega)

theorem isSymbolAt_bind (n : Nat) (c : Char) {f : Bool → Parser β}
    (hf : ∀ b, (b = true → pos + n < T.tokens.size) → Reads T k pos (f b)) :
    Reads T k pos (isSymbolAt n c >>= f) := by
  obtain ⟨b, h, hb⟩ := isSymbolAt_run T n c pos
  exact stay h (hf b hb)

theorem isIdentAt_bind (n : Nat) {f : Bool → Parser β}
    (hf : ∀ b, (b = true → pos + n < T.tokens.size) → Reads T k pos (f b)) :
    Reads T k pos (isIdentAt n >>= f) := by
  obtain ⟨b, h, hb⟩ := isIdentAt_run T n pos
  exact stay h (hf b hb)

theorem isKeywordAt_bind (n : Nat) (kw : String) {f : Bool → Parser β}
    (hf : ∀ b, (b = true → pos + n < T.tokens.size) → Reads T k pos (f b)) :
    Reads T k pos (isKeywordAt n kw >>= f) := by
  obtain ⟨b, h, hb⟩ := isKeywordAt_run T n kw pos
  exact stay h (hf b hb)

theorem isSymbol_bind (c : Char) {f : Bool → Parser β}
    (hf : ∀ b, (b = true → pos < T.tokens.size) → Reads T k pos (f b)) :
    Reads T k pos (isSymbol c >>= f) :=
  isSymbolAt_bind 0 c hf

theorem isKeyword_bind (kw : String) {f : Bool → Parser β}
    (hf : ∀ b, (b = true → pos < T.tokens.size) → Reads T k pos (f b)) :
    Reads T k pos (isKeyword kw >>= f) :=
  isKeywordAt_bind 0 kw hf

theorem eatSymbol_bind (c : Char) {f : Bool → Parser β}
    (h₁ : pos < T.tokens.size → Reads T (k - 1) (pos + 1) (f true)) (h₂ : Reads T k pos (f false)) :
    Reads T k pos (eatSymbol c >>= f) := by
  rcases eatSymbol_run T c pos with ⟨h, hlt⟩ | h
  · exact step h (Nat.le_succ pos) (fun _ => hlt) (h₁ hlt) (by omega)
  · exact stay h h₂

end Reads

/-! ### Single tokens -/

section Tokens

variable (T)

theorem next_reads (pos : Nat) : Reads T 1 pos next := by
  unfold next
  refine Reads.peek_bind ?_
  split
  · rename_i t ht
    exact Reads.bump_bind (lt_size_of_getElem? ht) (Reads.pure t)
  · exact Reads.failHere (by decide)

theorem expectSymbol_reads (c : Char) (pos : Nat) : Reads T 1 pos (expectSymbol c) := by
  unfold expectSymbol
  refine Reads.isSymbol_bind c fun b _ => ?_
  split
  · exact next_reads T pos
  · exact Reads.failHere (not_internal_of_head (by simp))

theorem expectKeyword_reads (kw : String) (pos : Nat) : Reads T 1 pos (expectKeyword kw) := by
  unfold expectKeyword
  refine Reads.isKeyword_bind kw fun b _ => ?_
  split
  · exact next_reads T pos
  · exact Reads.failHere (not_internal_of_head (by simp))

theorem ident_reads (what : String) (pos : Nat) : Reads T 1 pos (ident what) := by
  unfold ident
  refine Reads.peek_bind ?_
  split
  · rename_i name span _ _ _ _ ht
    exact Reads.bump_bind (lt_size_of_getElem? ht) (Reads.pure _)
  · exact Reads.failHere (not_internal_of_head (by simp))

theorem identTail_reads (what : String) (n : Nat) :
    ∀ acc pos, T.tokens.size - pos < n → Reads T 0 pos (identTail what n acc) := by
  induction n with
  | zero => intro _ _ h; omega
  | succ n ih =>
    intro acc pos h
    rw [identTail]
    refine Reads.isSymbol_bind '.' fun dot hdot => Reads.isIdentAt_bind 1 fun _ _ => ?_
    split
    · rename_i hboth
      have hlt := hdot (Bool.and_eq_true_iff.mp hboth).1
      exact Reads.weaken (Reads.bump_bind hlt (Reads.bind_take (ident_reads T what (pos + 1))
        fun _ pos' _ _ _ => ih _ pos' (by omega)))
    · exact Reads.pure acc

theorem fullIdent_reads (what : String) (pos : Nat) : Reads T 1 pos (fullIdent what) := by
  unfold fullIdent
  refine Reads.bind_take (ident_reads T what pos) fun first pos' _ _ _ => ?_
  exact Reads.remaining_bind (identTail_reads T what _ first pos' (by omega))

theorem typeName_reads (pos : Nat) : Reads T 1 pos typeName := by
  unfold typeName
  refine Reads.isSymbol_bind '.' fun b _ => ?_
  split
  · refine Reads.bind_take (next_reads T pos) fun dot pos' _ _ _ => ?_
    exact Reads.bind_take (fullIdent_reads T _ pos') fun rest _ _ _ _ => Reads.pure _
  · exact fullIdent_reads T _ pos

theorem unsignedInt_reads (what : String) (pos : Nat) : Reads T 1 pos (unsignedInt what) := by
  unfold unsignedInt
  refine Reads.peek_bind ?_
  split
  · rename_i v span _ _ _ _ ht
    split
    · exact Reads.failAt (by decide)
    · exact Reads.bump_bind (lt_size_of_getElem? ht) (Reads.pure _)
  · exact Reads.failHere (not_internal_of_head (by simp))

theorem signedInt_reads (what : String) (pos : Nat) : Reads T 1 pos (signedInt what) := by
  unfold signedInt
  refine Reads.isSymbol_bind '-' fun b _ => ?_
  split
  · refine Reads.bind_take (next_reads T pos) fun minus pos' _ _ _ => ?_
    exact Reads.bind_take (unsignedInt_reads T what pos') fun m _ _ _ _ => Reads.pure _
  · exact unsignedInt_reads T what pos

theorem stringTail_reads (n : Nat) :
    ∀ acc pos, T.tokens.size - pos < n → Reads T 0 pos (stringTail n acc) := by
  induction n with
  | zero => intro _ _ h; omega
  | succ n ih =>
    intro acc pos h
    rw [stringTail]
    refine Reads.peek_bind ?_
    split
    · rename_i more span _ _ _ _ ht
      have hlt := lt_size_of_getElem? ht
      exact Reads.weaken (Reads.bump_bind hlt (ih _ (pos + 1) (by omega)))
    · exact Reads.pure acc

theorem stringLit_reads (what : String) (pos : Nat) : Reads T 1 pos (stringLit what) := by
  unfold stringLit
  refine Reads.peek_bind ?_
  split
  · rename_i first span _ _ _ _ ht
    exact Reads.bump_bind (lt_size_of_getElem? ht)
      (Reads.remaining_bind (stringTail_reads T _ _ (pos + 1) (by omega)))
  · exact Reads.failHere (not_internal_of_head (by simp))

theorem utf8String_reads (what : String) (pos : Nat) : Reads T 1 pos (utf8String what) := by
  unfold utf8String
  refine Reads.bind_take (stringLit_reads T what pos) fun lit pos' _ _ _ => ?_
  split
  · exact Reads.pure _
  · exact Reads.failAt (by decide)

theorem declTokens_run {start pos : Nat} (h₁ : start < pos) (h₂ : pos ≤ T.tokens.size) :
    declTokens start T pos = .ok ((T.tokens[start], T.tokens[pos - 1]), pos) := by
  have hfirst : T.tokens[start]? = some T.tokens[start] := Array.getElem?_eq_getElem _
  have hlast : T.tokens[max (pos - 1) start]? = some T.tokens[pos - 1] := by
    rw [show max (pos - 1) start = pos - 1 by omega]
    exact Array.getElem?_eq_getElem _
  unfold declTokens
  dsimp only [read, readThe, MonadReaderOf.read, get, getThe, MonadStateOf.get, bind, ReaderT.bind,
    ReaderT.read, StateT.bind, StateT.get, StateT.pure, pure, Except.pure, Except.bind, liftM, monadLift,
    MonadLift.monadLift]
  simp only [hfirst, hlast]
  rfl

theorem decl_reads {start pos : Nat} (h₁ : start < pos) (h₂ : pos ≤ T.tokens.size) :
    Reads T 0 pos (decl start) :=
  Reads.stay (declTokens_run T h₁ h₂) (Reads.pure _)

theorem bareDecl_reads {start pos : Nat} (h₁ : start < pos) (h₂ : pos ≤ T.tokens.size) :
    Reads T 0 pos (bareDecl start) :=
  Reads.stay (declTokens_run T h₁ h₂) (Reads.pure _)

end Tokens

/-! ### Options -/

section Options

variable (T)

theorem optionNameParts_reads (n : Nat) :
    ∀ acc pos, T.tokens.size - pos < n → Reads T 1 pos (optionNameParts n acc) := by
  induction n with
  | zero => intro _ _ h; omega
  | succ n ih =>
    intro acc pos h
    rw [optionNameParts]
    refine Reads.isSymbol_bind '(' fun b _ => ?_
    dsimp only
    split
    · refine Reads.bind_take (next_reads T pos) fun _ p₁ _ _ _ => ?_
      refine Reads.bind_take (typeName_reads T p₁) fun _ p₂ _ _ _ => ?_
      refine Reads.bind_take (expectSymbol_reads T ')' p₂) fun _ p₃ _ _ _ => Reads.stay rfl ?_
      exact Reads.eatSymbol_bind '.' (fun _ => (ih _ (p₃ + 1) (by omega)).weaken) (Reads.pure _)
    · refine Reads.bind_take (ident_reads T _ pos) fun _ p₁ _ _ _ => Reads.stay rfl ?_
      exact Reads.eatSymbol_bind '.' (fun _ => (ih _ (p₁ + 1) (by omega)).weaken) (Reads.pure _)

theorem aggregateTokens_reads (n : Nat) :
    ∀ depth acc pos, T.tokens.size - pos < n → Reads T 1 pos (aggregateTokens n depth acc) := by
  induction n with
  | zero => intro _ _ _ h; omega
  | succ n ih =>
    intro depth acc pos h
    rw [aggregateTokens]
    refine Reads.bind_take (next_reads T pos) fun t pos' _ _ _ => ?_
    repeat' split
    all_goals first
      | exact Reads.pure _
      | exact (ih _ _ pos' (by omega)).weaken

theorem optionValue_reads (pos : Nat) : Reads T 1 pos optionValue := by
  unfold optionValue
  refine Reads.peek_bind ?_
  split
  · rename_i tok ht
    have hlt := lt_size_of_getElem? ht
    split
    · refine Reads.bump_bind hlt (Reads.bind_take (next_reads T (pos + 1)) fun n _ _ _ _ => ?_)
      split
      all_goals first
        | exact Reads.pure _
        | exact Reads.failAt (by decide)
    · exact Reads.bump_bind hlt (Reads.pure _)
    · exact Reads.bump_bind hlt (Reads.pure _)
    · exact Reads.bind_take (stringLit_reads T _ pos) fun _ _ _ _ _ => Reads.pure _
    · exact Reads.bind_take (fullIdent_reads T _ pos) fun _ _ _ _ _ => Reads.pure _
    · refine Reads.bind_take (next_reads T pos) fun _ pos' _ _ _ => Reads.remaining_bind ?_
      refine Reads.bind_take (aggregateTokens_reads T _ _ _ pos' (by omega)) fun x _ _ _ _ => ?_
      cases x
      exact Reads.pure _
    · exact Reads.failHere (by decide)
  · exact Reads.failHere (by decide)

theorem optionBody_reads (pos : Nat) : Reads T 1 pos optionBody := by
  unfold optionBody
  refine Reads.remaining_bind (Reads.bind_take (optionNameParts_reads T _ [] pos (by omega))
    fun _ p₁ _ _ _ => ?_)
  refine Reads.bind_take (expectSymbol_reads T '=' p₁) fun _ p₂ _ _ _ => ?_
  exact Reads.bind_take (optionValue_reads T p₂) fun _ _ _ _ _ => Reads.pure _

theorem optionStatement_reads (pos : Nat) : Reads T 1 pos optionStatement := by
  unfold optionStatement
  refine Reads.pos_bind (Reads.bind_take (expectKeyword_reads T _ pos) fun _ p₁ _ _ _ => ?_)
  refine Reads.bind_take (optionBody_reads T p₁) fun x p₂ _ _ _ => ?_
  cases x
  refine Reads.bind_take (expectSymbol_reads T ';' p₂) fun _ p₃ _ _ _ => ?_
  exact (decl_reads T (by omega) (by omega)).map _

theorem compactEntries_reads (n : Nat) :
    ∀ acc pos, T.tokens.size - pos < n → Reads T 1 pos (compactEntries n acc) := by
  induction n with
  | zero => intro _ _ h; omega
  | succ n ih =>
    intro acc pos h
    rw [compactEntries]
    refine Reads.pos_bind (Reads.bind_take (optionBody_reads T pos) fun x p₁ _ _ _ => ?_)
    cases x
    refine Reads.bind_keep (bareDecl_reads T (by omega) (by omega)) fun _ p₂ _ _ _ => ?_
    refine Reads.eatSymbol_bind ',' (fun _ => (ih _ (p₂ + 1) (by omega)).weaken) ?_
    exact Reads.bind_take (expectSymbol_reads T ']' p₂) fun _ _ _ _ _ => Reads.pure _

theorem compactOptions_reads (pos : Nat) : Reads T 0 pos compactOptions := by
  unfold compactOptions
  refine Reads.eatSymbol_bind '[' (fun _ => Reads.remaining_bind ?_) (Reads.pure _)
  exact (compactEntries_reads T _ [] (pos + 1) (by omega)).weaken

end Options

/-! ### Statements of messages and enums -/

section Statements

variable (T)

theorem label_reads (pos : Nat) : Reads T 0 pos label := by
  unfold label
  refine Reads.peek_bind ?_
  split
  · rename_i tok ht
    dsimp only
    split
    · exact Reads.pure _
    · refine Reads.isSymbolAt_bind 1 '=' fun b _ => ?_
      split
      · exact Reads.pure _
      · exact Reads.weaken (Reads.bump_bind (lt_size_of_getElem? ht) (Reads.pure _))
  · exact Reads.pure _

theorem numberRange_reads (signed : Bool) (pos : Nat) : Reads T 1 pos (numberRange signed) := by
  unfold numberRange
  dsimp only
  refine Reads.ite_bind (Reads.bind_take ?_ fun start p₁ _ _ _ => Reads.isKeyword_bind "to" fun b hb => ?_)
  · split
    · exact signedInt_reads T _ pos
    · exact unsignedInt_reads T _ pos
  · split
    · rename_i hto
      refine Reads.weaken (Reads.bump_bind (hb hto) (Reads.isKeyword_bind "max" fun _ _ => ?_))
      split
      · exact Reads.bind_take (next_reads T _) fun _ _ _ _ _ => Reads.pure _
      · refine Reads.ite_bind (Reads.bind_take ?_ fun _ _ _ _ _ => Reads.pure _)
        split
        · exact signedInt_reads T _ _
        · exact unsignedInt_reads T _ _
    · exact Reads.pure _

theorem moreRanges_reads (signed : Bool) (n : Nat) :
    ∀ acc pos, T.tokens.size - pos < n → Reads T 0 pos (moreRanges signed n acc) := by
  induction n with
  | zero => intro _ _ h; omega
  | succ n ih =>
    intro acc pos h
    rw [moreRanges]
    refine Reads.eatSymbol_bind ',' (fun _ => ?_) (Reads.pure _)
    exact Reads.bind_take (numberRange_reads T signed (pos + 1)) fun _ p₁ _ _ _ => ih _ p₁ (by omega)

theorem rangeList_reads (signed : Bool) (pos : Nat) : Reads T 1 pos (rangeList signed) := by
  unfold rangeList
  exact Reads.bind_take (numberRange_reads T signed pos) fun first p₁ _ _ _ =>
    Reads.remaining_bind (moreRanges_reads T signed _ [first] p₁ (by omega))

theorem moreNames_reads (n : Nat) :
    ∀ acc pos, T.tokens.size - pos < n → Reads T 0 pos (moreNames n acc) := by
  induction n with
  | zero => intro _ _ h; omega
  | succ n ih =>
    intro acc pos h
    rw [moreNames]
    refine Reads.eatSymbol_bind ',' (fun _ => ?_) (Reads.pure _)
    exact Reads.bind_take (utf8String_reads T _ (pos + 1)) fun _ p₁ _ _ _ => ih _ p₁ (by omega)

theorem reserved_reads (inEnum : Bool) (pos : Nat) : Reads T 1 pos (reserved inEnum) := by
  unfold reserved
  refine Reads.pos_bind (Reads.bind_take (expectKeyword_reads T _ pos) fun _ p₁ _ _ _ => ?_)
  refine Reads.peek_bind ?_
  dsimp only
  split
  · refine Reads.stay rfl ?_
    simp only [↓reduceIte]
    refine Reads.bind_take (utf8String_reads T _ p₁) fun first p₂ _ _ _ => Reads.remaining_bind ?_
    refine Reads.bind_keep (moreNames_reads T _ _ p₂ (by omega)) fun _ p₃ _ _ _ => Reads.stay rfl ?_
    refine Reads.bind_take (expectSymbol_reads T ';' p₃) fun _ p₄ _ _ _ => ?_
    exact (decl_reads T (by omega) (by omega)).map _
  · refine Reads.stay rfl ?_
    simp only [Bool.false_eq_true, ↓reduceIte]
    refine Reads.bind_take (rangeList_reads T _ p₁) fun _ p₂ _ _ _ => Reads.stay rfl ?_
    refine Reads.bind_take (expectSymbol_reads T ';' p₂) fun _ p₃ _ _ _ => ?_
    exact (decl_reads T (by omega) (by omega)).map _

theorem extensionRanges_reads (pos : Nat) : Reads T 1 pos extensionRanges := by
  unfold extensionRanges
  refine Reads.pos_bind (Reads.bind_take (expectKeyword_reads T _ pos) fun kw p₁ _ _ _ => ?_)
  refine Reads.dialect_bind ?_
  dsimp only
  split
  · exact Reads.failAt_bind (by decide)
  · refine Reads.bind_take (rangeList_reads T false p₁) fun _ p₂ _ _ _ => ?_
    refine Reads.bind_keep (compactOptions_reads T p₂) fun _ p₃ _ _ _ => ?_
    refine Reads.bind_take (expectSymbol_reads T ';' p₃) fun _ p₄ _ _ _ => ?_
    exact (decl_reads T (by omega) (by omega)).map _

theorem enumBody_reads (n : Nat) :
    ∀ acc pos, T.tokens.size - pos < n → Reads T 1 pos (enumBody n acc) := by
  induction n with
  | zero => intro _ _ h; omega
  | succ n ih =>
    intro acc pos h
    rw [enumBody]
    refine Reads.eatSymbol_bind '}' (fun _ => Reads.pure _) (Reads.peek_bind ?_)
    dsimp only
    split
    · exact Reads.failHere_bind (by decide)
    · refine Reads.eatSymbol_bind ';' (fun _ => (ih acc (pos + 1) (by omega)).weaken) ?_
      refine Reads.isKeyword_bind "option" fun _ _ => Reads.isSymbolAt_bind 1 '=' fun _ _ => ?_
      split
      · exact Reads.bind_take (optionStatement_reads T pos) fun _ p₁ _ _ _ => (ih _ p₁ (by omega)).weaken
      refine Reads.isKeyword_bind "reserved" fun _ _ => Reads.isSymbolAt_bind 1 '=' fun _ _ => ?_
      split
      · exact Reads.bind_take (reserved_reads T true pos) fun _ p₁ _ _ _ => (ih _ p₁ (by omega)).weaken
      -- a constant: name, number, options, semicolon
      refine Reads.pos_bind (Reads.bind_take (ident_reads T _ pos) fun _ p₁ _ _ _ => ?_)
      refine Reads.bind_take (expectSymbol_reads T '=' p₁) fun _ p₂ _ _ _ => ?_
      refine Reads.bind_take (signedInt_reads T _ p₂) fun _ p₃ _ _ _ => ?_
      refine Reads.bind_keep (compactOptions_reads T p₃) fun _ p₄ _ _ _ => ?_
      refine Reads.bind_take (expectSymbol_reads T ';' p₄) fun _ p₅ _ _ _ => ?_
      exact Reads.bind_keep (decl_reads T (by omega) (by omega)) fun _ p₆ _ _ _ =>
        (ih _ p₆ (by omega)).weaken

theorem enum_reads (pos : Nat) : Reads T 1 pos enum := by
  unfold enum
  refine Reads.pos_bind (Reads.bind_take (expectKeyword_reads T _ pos) fun _ p₁ _ _ _ => ?_)
  refine Reads.bind_take (ident_reads T _ p₁) fun _ p₂ _ _ _ => ?_
  refine Reads.bind_take (expectSymbol_reads T '{' p₂) fun _ p₃ _ _ _ => Reads.remaining_bind ?_
  refine Reads.bind_take (enumBody_reads T _ [] p₃ (by omega)) fun _ p₄ _ _ _ => ?_
  exact (decl_reads T (by omega) (by omega)).map _

theorem mapField_reads (pos : Nat) : Reads T 1 pos mapField := by
  unfold mapField
  refine Reads.pos_bind (Reads.bind_take (expectKeyword_reads T _ pos) fun _ p₁ _ _ _ => ?_)
  refine Reads.bind_take (expectSymbol_reads T '<' p₁) fun _ p₂ _ _ _ => ?_
  refine Reads.bind_take (typeName_reads T p₂) fun _ p₃ _ _ _ => ?_
  refine Reads.bind_take (expectSymbol_reads T ',' p₃) fun _ p₄ _ _ _ => ?_
  refine Reads.bind_take (typeName_reads T p₄) fun _ p₅ _ _ _ => ?_
  refine Reads.bind_take (expectSymbol_reads T '>' p₅) fun _ p₆ _ _ _ => ?_
  refine Reads.bind_take (ident_reads T _ p₆) fun _ p₇ _ _ _ => ?_
  refine Reads.bind_take (expectSymbol_reads T '=' p₇) fun _ p₈ _ _ _ => ?_
  refine Reads.bind_take (unsignedInt_reads T _ p₈) fun _ p₉ _ _ _ => ?_
  refine Reads.bind_keep (compactOptions_reads T p₉) fun _ p₁₀ _ _ _ => ?_
  refine Reads.bind_take (expectSymbol_reads T ';' p₁₀) fun _ p₁₁ _ _ _ => ?_
  exact (decl_reads T (by omega) (by omega)).map _

theorem plainField_reads (start : Nat) (lbl : Option (Spanned LabelKind)) {pos : Nat} (hstart : start ≤ pos) :
    Reads T 1 pos (plainField start lbl) := by
  unfold plainField
  refine Reads.bind_take (typeName_reads T pos) fun _ p₁ _ _ _ => ?_
  refine Reads.bind_take (ident_reads T _ p₁) fun _ p₂ _ _ _ => ?_
  refine Reads.bind_take (expectSymbol_reads T '=' p₂) fun _ p₃ _ _ _ => ?_
  refine Reads.bind_take (unsignedInt_reads T _ p₃) fun _ p₄ _ _ _ => ?_
  refine Reads.bind_keep (compactOptions_reads T p₄) fun _ p₅ _ _ _ => Reads.dialect_bind ?_
  dsimp only
  repeat' split
  all_goals first
    | exact Reads.failAt_bind (by decide)
    | refine Reads.bind_take (expectSymbol_reads T ';' p₅) fun _ p₆ _ _ _ => ?_
      exact (decl_reads T (by omega) (by omega)).map _

theorem checkLabel_reads (site : FieldSite) (lbl : Option (Spanned LabelKind)) (pos : Nat) :
    Reads T 0 pos (checkLabel site lbl) := by
  unfold checkLabel
  split
  · dsimp only
    split
    · exact Reads.failAt_bind (by decide)
    · refine Reads.dialect_bind ?_
      split
      · exact Reads.failAt (by decide)
      · exact Reads.pure _
  · exact Reads.pure _

end Statements

end Parser

end ProtoSchema
