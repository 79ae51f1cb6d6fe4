import ProtoSchema.Proofs.Build.Parse

/-!
Package names as the parser reads them. The token reader makes an identifier only from
text that starts with a letter or an underscore (`tokenize_identTokens`), and a package
statement names its package by a dotted run of identifiers, so a parsed package name
starts with such a character (`parseSchemaChars_packageNamed`). Declaring the parts of such a name
one inside the other, as the symbol table does, ends in the scope that is the name itself
(`addPackage_scope`): the names the symbol table gives a file's declarations are the
names the file's descriptor gives them.
-/

namespace ProtoSchema

def IdentName (n : String) : Prop :=
  ∃ c cs, n.toList = c :: cs ∧ Lexer.isIdentStart c = true

namespace Lexer

def IdentTokens (ts : Array Token) : Prop :=
  ∀ t ∈ ts.toList, ∀ n, t.kind = .ident n → IdentName n

theorem lexToken_ident {cs consumed : List Char} {n : String}
    (h : lexToken cs = .ok (.ident n, consumed)) : IdentName n := by
  match cs, h with
  | c :: rest, h =>
    unfold lexToken at h
    dsimp only at h
    split at h
    · rename_i hc
      cases h
      exact ⟨c, rest.takeWhile isIdentCont, String.toList_ofList, hc⟩
    · -- every other kind of token is not an identifier
      repeat' split at h
      all_goals cases h

theorem State.skip_tokens (st : State) (consumed : List Char) : (st.skip consumed).tokens = st.tokens := by
  unfold State.skip
  split
  rfl

theorem skipTrivia_tokens {prevEnd : Option Nat} :
    ∀ {fuel : Nat} {st st' : State}, skipTrivia prevEnd fuel st = .ok st' → st'.tokens = st.tokens
  | 0, _, _, h => by cases h
  | fuel + 1, st, st', h => by
    unfold skipTrivia at h
    split at h
    · split at h
      · exact (skipTrivia_tokens h).trans (by simp [State.skip_tokens])
      · split at h
        · dsimp only at h
          exact (skipTrivia_tokens h).trans (by simp [State.skip_tokens])
        · split at h
          · cases h
          · dsimp only at h
            exact (skipTrivia_tokens h).trans (by simp [State.skip_tokens])
        · cases h
          rfl
    · cases h
      rfl

theorem IdentTokens.push {ts : Array Token} (h : IdentTokens ts) {t : Token}
    (ht : ∀ n, t.kind = .ident n → IdentName n) : IdentTokens (ts.push t) := by
  intro u hu n hn
  rw [Array.toList_push, List.mem_append, List.mem_singleton] at hu
  rcases hu with hu | rfl
  · exact h u hu n hn
  · exact ht n hn

theorem attach_fst (ts : Array Token) (pending : List RawComment) (next : Option Nat) :
    (attach ts pending next).1 = ts ∨
      ∃ prev c, ts.back? = some prev ∧ (attach ts pending next).1 = ts.pop.push { prev with trailing := c } := by
  unfold attach
  split
  · exact .inl rfl
  · rename_i first more
    cases hb : ts.back? with
    | none =>
      left
      dsimp only
      split <;> (try split) <;> rfl
    | some prev =>
      by_cases hl : first.startLine = prev.span.endLine
      · right
        refine ⟨prev, some first.text, rfl, ?_⟩
        simp only [hl, if_true]
        split <;> (try split) <;> rfl
      · left
        simp only [hl, if_false]
        split <;> (try split) <;> rfl

theorem IdentTokens.attach {ts : Array Token} (h : IdentTokens ts) (pending : List RawComment)
    (next : Option Nat) : IdentTokens (Lexer.attach ts pending next).1 := by
  rcases attach_fst ts pending next with heq | ⟨prev, c, hprev, heq⟩
  · rw [heq]
    exact h
  · rw [heq]
    refine IdentTokens.push (fun u hu => h u ((List.dropLast_sublist _).subset (by simpa using hu))) ?_
    exact h prev (Array.mem_toList_iff.mpr (Array.mem_of_back? hprev))

theorem run_identTokens : ∀ (fuel : Nat) (st : State) {ts : Array Token},
    IdentTokens st.tokens → run fuel st = .ok ts → IdentTokens ts
  | 0, _, _, _, hr => by cases hr
  | fuel + 1, st, ts, h, hr => by
    unfold run at hr
    obtain ⟨st₁, hskip, hr⟩ := Except.bind_eq_ok.mp hr
    have h₁ : IdentTokens st₁.tokens := skipTrivia_tokens hskip ▸ h
    split at hr
    · cases hr
      exact h₁.attach _ _
    · split at hr
      · cases hr
      · rename_i kind consumed hlex
        refine run_identTokens fuel _ ?_ hr
        exact (h₁.attach _ _).push fun n hn => by
          have hk : kind = .ident n := hn
          exact lexToken_ident (hk ▸ hlex)

end Lexer

theorem tokenize_identTokens {cs : List Char} {ts : Array Token} {span : Span}
    (h : tokenize cs = .ok (ts, span)) : Lexer.IdentTokens ts := by
  unfold tokenize at h
  obtain ⟨ts', hrun, h⟩ := Except.bind_eq_ok.mp h
  cases h
  exact Lexer.run_identTokens _ _ (by simp [Lexer.IdentTokens]) hrun

def SchemaFile.PackageNamed (s : SchemaFile) : Prop :=
  ∀ p, s.package = some p → IdentName p.name.value

theorem IdentName.append {n : String} (h : IdentName n) (t : String) : IdentName (n ++ t) := by
  obtain ⟨c, cs, hn, hc⟩ := h
  exact ⟨c, cs ++ t.toList, by rw [String.toList_append, hn, List.cons_append], hc⟩

namespace Parser

section Reading

variable {α β : Type} {T : ParserInput} {st st' : Nat}

theorem bind_eq_ok {x : Parser α} {f : α → Parser β} {b : β} :
    (x >>= f) T st = .ok (b, st') ↔ ∃ a st₁, x T st = .ok (a, st₁) ∧ f a T st₁ = .ok (b, st') := by
  show (x T st >>= fun p => f p.1 T p.2) = _ ↔ _
  cases x T st with
  | error e => simp [bind, Except.bind]
  | ok p =>
    constructor
    · exact fun h => ⟨p.1, p.2, rfl, h⟩
    · rintro ⟨a, st₁, hp, h⟩
      cases hp
      exact h

theorem withReader_run (f : ParserInput → ParserInput) (x : Parser α) :
    withReader f x T st = x (f T) st := rfl

theorem failHere_ne_ok (message : String) (r : α × Nat) : failHere message T st ≠ .ok r := by
  intro h
  obtain ⟨e, st₁, -, h⟩ := bind_eq_ok.mp h
  cases h

theorem identTail_named {what : String} :
    ∀ (fuel : Nat) {acc r : Spanned String} {st : Nat},
      IdentName acc.value → identTail what fuel acc T st = .ok (r, st') → IdentName r.value
  | 0, _, _, _, _, h => absurd h (failHere_ne_ok _ _)
  | fuel + 1, acc, r, st, hacc, h => by
    unfold identTail at h
    obtain ⟨dot, st₁, -, h⟩ := bind_eq_ok.mp h
    obtain ⟨identNext, st₂, -, h⟩ := bind_eq_ok.mp h
    split at h
    · obtain ⟨u, st₃, -, h⟩ := bind_eq_ok.mp h
      obtain ⟨part, st₄, -, h⟩ := bind_eq_ok.mp h
      exact identTail_named fuel ((hacc.append _).append _) h
    · cases h
      exact hacc

variable (hT : Lexer.IdentTokens T.tokens)
include hT

theorem ident_named {what : String} {r : Spanned String} (h : ident what T st = .ok (r, st')) :
    IdentName r.value := by
  unfold ident at h
  obtain ⟨tok, st₁, hpeek, h⟩ := bind_eq_ok.mp h
  have hmem : ∀ t, tok = some t → t ∈ T.tokens.toList := by
    intro t ht
    have hat : peek T st = .ok (T.tokens[st + 0]?, st) := rfl
    rw [hat] at hpeek
    cases hpeek
    exact List.mem_of_getElem? (by simpa using ht)
  rcases tok with _ | ⟨kind, span, text, leading, trailing, detached⟩
  · exact absurd h (failHere_ne_ok _ _)
  · cases kind with
    | ident name =>
      obtain ⟨-, -, -, h⟩ := bind_eq_ok.mp h
      cases h
      exact hT _ (hmem _ rfl) name rfl
    | _ => exact absurd h (failHere_ne_ok _ _)

theorem fullIdent_named {what : String} {r : Spanned String} (h : fullIdent what T st = .ok (r, st')) :
    IdentName r.value := by
  unfold fullIdent at h
  obtain ⟨first, st₁, hfirst, h⟩ := bind_eq_ok.mp h
  obtain ⟨n, st₂, -, h⟩ := bind_eq_ok.mp h
  exact identTail_named _ (ident_named hT hfirst) h

theorem topLevel_packageNamed : ∀ (fuel : Nat) {file file' : SchemaFile} {st : Nat},
    file.PackageNamed → topLevel fuel file T st = .ok (file', st') → file'.PackageNamed
  | 0, _, _, _, _, h => absurd h (failHere_ne_ok _ _)
  | fuel + 1, file, file', st, hf, h => by
    unfold topLevel at h
    obtain ⟨tok, st₁, -, h⟩ := bind_eq_ok.mp h
    rcases tok with _ | ⟨kind, span, text, leading, trailing, detached⟩
    · -- no token is left
      cases h
      exact hf
    -- a statement other than `package` reads on with the package as it was
    have next : ∀ {f : SchemaFile} {st₂ : Nat}, topLevel fuel f T st₂ = .ok (file', st') →
        f.package = file.package → file'.PackageNamed :=
      fun h hp => topLevel_packageNamed fuel (fun p hp' => hf p (hp ▸ hp')) h
    cases kind with
    | symbol c =>
      by_cases hc : c = ';'
      · subst hc
        obtain ⟨_, st₂, -, h⟩ := bind_eq_ok.mp h
        exact next h rfl
      · simp [hc, failHere_ne_ok] at h
    | ident n =>
      by_cases hpkg : n = "package"
      · -- the package statement: the name is a dotted run of identifiers
        subst hpkg
        by_cases hsome : file.package.isSome = true
        · simp [hsome] at h
          obtain ⟨_, st₂, hfail, -⟩ := bind_eq_ok.mp h
          exact absurd hfail (failHere_ne_ok _ _)
        simp [hsome] at h
        obtain ⟨start, st₂, -, h⟩ := bind_eq_ok.mp h
        obtain ⟨_, st₃, -, h⟩ := bind_eq_ok.mp h
        obtain ⟨name, st₄, hname, h⟩ := bind_eq_ok.mp h
        obtain ⟨_, st₅, -, h⟩ := bind_eq_ok.mp h
        obtain ⟨d, st₆, -, h⟩ := bind_eq_ok.mp h
        refine topLevel_packageNamed fuel ?_ h
        rintro p ⟨⟩
        exact fullIdent_named hT hname
      by_cases himport : n = "import"
      · subst himport
        simp at h
        obtain ⟨_, st₂, -, h⟩ := bind_eq_ok.mp h
        exact next h rfl
      by_cases hoption : n = "option"
      · subst hoption
        simp at h
        obtain ⟨_, st₂, -, h⟩ := bind_eq_ok.mp h
        exact next h rfl
      by_cases hmessage : n = "message"
      · subst hmessage
        simp at h
        obtain ⟨_, st₂, -, h⟩ := bind_eq_ok.mp h
        obtain ⟨_, st₃, -, h⟩ := bind_eq_ok.mp h
        exact next h rfl
      by_cases henum : n = "enum"
      · subst henum
        simp at h
        obtain ⟨_, st₂, -, h⟩ := bind_eq_ok.mp h
        exact next h rfl
      by_cases hservice : n = "service"
      · subst hservice
        simp at h
        obtain ⟨_, st₂, -, h⟩ := bind_eq_ok.mp h
        exact next h rfl
      by_cases hextend : n = "extend"
      · subst hextend
        simp at h
        obtain ⟨_, st₂, -, h⟩ := bind_eq_ok.mp h
        obtain ⟨_, st₃, -, h⟩ := bind_eq_ok.mp h
        exact next h rfl
      by_cases hsyntax : n = "syntax"
      · subst hsyntax
        simp [failHere_ne_ok] at h
      · simp [hpkg, himport, hoption, hmessage, henum, hservice, hextend, hsyntax, failHere_ne_ok] at h
    | _ => simp [failHere_ne_ok] at h

theorem schemaFile_packageNamed {span : Span} {file : SchemaFile}
    (h : schemaFile span T st = .ok (file, st')) : file.PackageNamed := by
  unfold schemaFile at h
  obtain ⟨version, st₁, -, h⟩ := bind_eq_ok.mp h
  have hnone : ∀ {T' : ParserInput} {f : SchemaFile} {st₂ rest : Nat},
      topLevel rest f T' st₂ = .ok (file, st') → T'.tokens = T.tokens → f.package = none →
        file.PackageNamed :=
    fun h htok hf => topLevel_packageNamed (htok ▸ hT) _ (fun p hp => by rw [hf] at hp; cases hp) h
  split at h
  · rw [withReader_run] at h
    obtain ⟨n, st₂, -, h⟩ := bind_eq_ok.mp h
    exact hnone h rfl rfl
  · obtain ⟨n, st₂, -, h⟩ := bind_eq_ok.mp h
    exact hnone h rfl rfl

end Reading

end Parser

/-- Every package a parsed schema names starts with an identifier. -/
theorem parseSchemaChars_packageNamed {cs : List Char} {s : SchemaFile}
    (h : parseSchemaChars cs = .ok s) : s.PackageNamed := by
  unfold parseSchemaChars at h
  obtain ⟨⟨tokens, span⟩, htok, h⟩ := Except.bind_eq_ok.mp h
  obtain ⟨⟨file, st⟩, hrun, h⟩ := Except.bind_eq_ok.mp h
  cases h
  exact Parser.schemaFile_packageNamed (tokenize_identTokens htok) hrun

theorem loadSource_packageNamed {bucket : Bucket} {src : SourceOrigin} {f : ParsedFile}
    (h : loadSource bucket src = .ok (.parsed f)) : f.schema.PackageNamed := by
  obtain ⟨cs, hcs⟩ := loadSource_parsed h
  exact parseSchemaChars_packageNamed hcs

theorem parseAll_named_distinct {bucket : Bucket} {fs : FileSet} {p : Parsing} (hp : parseAll bucket fs = .ok p) :
    (∀ f ∈ p.files.toList, f.schema.PackageNamed) ∧ (p.files.toList.map (·.name)).Nodup := by
  obtain ⟨hinv, -⟩ := parseAll_inv hp
  refine ⟨fun f hf => ?_, hinv.nodup.sublist (List.sublist_append_left _ _ |>.trans (List.sublist_append_left _ _))⟩
  obtain ⟨src, -, -, hload⟩ := hinv.files f hf
  exact loadSource_packageNamed hload

/-! ### The scope of a package -/

theorem foldl_qualify_ofList : ∀ (parts : List (List Char)) (acc : List Char), acc ≠ [] →
    (parts.map String.ofList).foldl qualify (String.ofList acc) =
      String.ofList (acc ++ parts.flatMap ('.' :: ·))
  | [], acc, _ => by simp
  | x :: parts, acc, hacc => by
    have hne : (String.ofList acc).isEmpty = false := by
      cases acc with
      | nil => exact absurd rfl hacc
      | cons c cs => simp
    have hstep : qualify (String.ofList acc) (String.ofList x) = String.ofList (acc ++ '.' :: x) := by
      rw [qualify, hne]
      simp [← String.toList_inj, String.toList_append]
    rw [List.map_cons, List.foldl_cons, hstep, foldl_qualify_ofList parts _ (by simp)]
    simp

theorem append_flatMap_eq_intercalate (sep : α) : ∀ (parts : List (List α)) (a : List α),
    a ++ parts.flatMap (sep :: ·) = [sep].intercalate (a :: parts)
  | [], a => by simp
  | b :: parts, a => by
    rw [List.flatMap_cons, List.intercalate_cons_cons, ← append_flatMap_eq_intercalate sep parts b]
    simp

theorem foldl_qualify_splitOn {n : String} (hn : IdentName n) :
    ((n.toList.splitOn '.').map String.ofList).foldl qualify "" = n := by
  obtain ⟨c, cs, hn', hc⟩ := hn
  have hdot : (c == '.') = false := by
    cases hcd : c == '.'
    · rfl
    · rw [beq_iff_eq.mp hcd] at hc
      simp [Lexer.isIdentStart] at hc
  obtain ⟨first, rest, hsplit⟩ := List.exists_cons_of_ne_nil (List.splitOn_ne_nil '.' cs)
  have hparts : (c :: cs).splitOn '.' = (c :: first) :: rest := by
    rw [List.splitOn_cons_eq_if_modifyHead, hdot, if_neg Bool.false_ne_true, hsplit]
    rfl
  calc ((n.toList.splitOn '.').map String.ofList).foldl qualify ""
      = (rest.map String.ofList).foldl qualify (String.ofList (c :: first)) := by
        rw [hn', hparts]
        simp [qualify]
    _ = String.ofList ((c :: first) ++ rest.flatMap ('.' :: ·)) :=
        foldl_qualify_ofList rest _ (List.cons_ne_nil _ _)
    _ = String.ofList (['.'].intercalate ((c :: cs).splitOn '.')) := by
        rw [append_flatMap_eq_intercalate, hparts]
    _ = n := by rw [List.intercalate_splitOn, ← hn', String.ofList_toList]

/-- Declaring the parts of a package named by identifiers ends in the scope of its name. -/
theorem Collected.addPackage_scope (c : Collected) (names : Array String) (file : Nat) (p : Package)
    (hp : IdentName p.name.value) : (c.addPackage names file p).2 = p.name.value := by
  unfold Collected.addPackage
  have hscope : ∀ (parts : List String) (acc : Collected × String),
      (parts.foldl (fun (acc : Collected × String) part =>
        (acc.1.add names file acc.2 part .package p.name.span (.package [file]), qualify acc.2 part)) acc).2 =
      parts.foldl qualify acc.2 := by
    intro parts
    induction parts with
    | nil => exact fun _ => rfl
    | cons part rest ih => exact fun acc => ih _
  exact (hscope _ (c, "")).trans (foldl_qualify_splitOn hp)

end ProtoSchema
