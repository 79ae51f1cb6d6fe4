import ProtoSchema.Proofs.Source.Reads

/-!
The token reader always gets on with the text. Skipping blanks and comments never leaves more
text than it found (`skipTrivia_progress`), reading a token takes at least one character
(`lexToken_consumes`), and a string literal's body ends before the text does
(`stringBody_shortens`). Each round of the reader therefore shortens the text, and the fuel it is
given, one round per character, never runs out (`tokenize_sound`).
-/

namespace ProtoSchema

namespace Lexer

variable {α : Type}

/-- A reading at the start of `cs` whose failures are real ones and which leaves a shorter text. -/
structure Shortens (cs : List Char) (r : Except String (α × List Char)) : Prop where
  sound : ∀ msg, r = .error msg → ¬ (msg = ParseError.fuelMessage ∨ msg = ParseError.rangeMessage)
  shorter : ∀ a after, r = .ok (a, after) → after.length < cs.length

namespace Shortens

variable {cs : List Char} {r : Except String (α × List Char)}

theorem error {msg : String} (h : ¬ (msg = ParseError.fuelMessage ∨ msg = ParseError.rangeMessage)) :
    Shortens cs (.error msg : Except String (α × List Char)) :=
  ⟨fun _ he => by cases he; exact h, fun _ _ he => (by cases he)⟩

theorem ok {a : α} {after : List Char} (h : after.length < cs.length) : Shortens cs (.ok (a, after)) :=
  ⟨fun _ he => (by cases he), fun _ _ he => by cases he; exact h⟩

theorem mono {cs' : List Char} (h : Shortens cs' r) (hlen : cs'.length ≤ cs.length) : Shortens cs r :=
  ⟨h.sound, fun a after ha => by have := h.shorter a after ha; omega⟩

theorem ite {c : Prop} [Decidable c] {x y : Except String (α × List Char)} (h₁ : c → Shortens cs x)
    (h₂ : ¬ c → Shortens cs y) : Shortens cs (if c then x else y) := by
  by_cases hc : c
  · rw [if_pos hc]
    exact h₁ hc
  · rw [if_neg hc]
    exact h₂ hc

end Shortens

/-- A string body read with fuel above the length of the text: every round takes the character
it looks at, and an escape the characters after its backslash. -/
theorem stringBody_shortens (q : Char) (fuel : Nat) :
    ∀ cs acc, cs.length < fuel → Shortens cs (stringBody q fuel cs acc) := by
  induction fuel with
  | zero => intro _ _ h; omega
  | succ fuel ih =>
    intro cs acc h
    have step : ∀ more acc', more.length < cs.length → Shortens cs (stringBody q fuel more acc') :=
      fun more acc' hm => (ih more acc' (by omega)).mono (by omega)
    rcases cs with _ | ⟨c, rest⟩
    · exact Shortens.error (by decide)
    rw [stringBody.eq_def]
    dsimp only
    refine Shortens.ite (fun _ => Shortens.error (by decide)) fun _ => ?_
    refine Shortens.ite (fun _ => Shortens.ok (by simp)) fun _ => ?_
    refine Shortens.ite (fun _ => step rest _ (by simp)) fun _ => ?_
    rcases rest with _ | ⟨e, more⟩
    · exact Shortens.error (by decide)
    dsimp only
    have simple : ∀ acc', Shortens (c :: e :: more) (stringBody q fuel more acc') :=
      fun acc' => step _ _ (by simp only [List.length_cons]; omega)
    have dropped : ∀ k acc', Shortens (c :: e :: more) (stringBody q fuel (more.drop k) acc') :=
      fun k acc' => step _ _ (by simp only [List.length_cons, List.length_drop]; omega)
    -- the eight escapes named by a letter or the character itself
    iterate 8 refine Shortens.ite (fun _ => simple _) fun _ => ?_
    refine Shortens.ite (fun _ => dropped _ _) fun _ => ?_
    refine Shortens.ite (fun _ => Shortens.ite (fun _ => Shortens.error (by decide)) fun _ => dropped _ _)
      fun _ => Shortens.ite (fun _ => ?_) fun _ => Shortens.error (by decide)
    split
    · exact Shortens.error (by decide)
    · split
      · exact Shortens.ite (fun _ => dropped _ _) fun _ => Shortens.error (by decide)
      · exact Shortens.error (by decide)

theorem floatPrefix_ne_nil {cs text : List Char} (h : floatPrefix cs = some text) : text ≠ [] := by
  unfold floatPrefix at h
  dsimp only at h
  split at h
  · split at h
    · split at h
      · cases h
      · cases h
        exact List.cons_ne_nil _ _
    · cases h
      simp
  · split at h
    · cases h
    · rename_i hds
      obtain ⟨ex, -, rfl⟩ := Option.map_eq_some_iff.mp h
      intro hnil
      exact hds (List.isEmpty_iff.mpr (List.append_eq_nil_iff.mp hnil).1)

theorem lexToken_sound {cs : List Char} {msg : String} (h : lexToken cs = .error msg) :
    ¬ (msg = ParseError.fuelMessage ∨ msg = ParseError.rangeMessage) := by
  unfold lexToken at h
  split at h
  · cases h
    decide
  · rename_i c rest
    dsimp only at h
    repeat' split at h
    all_goals cases h <;> first
      | decide
      | exact (stringBody_shortens _ _ rest [] (Nat.lt_succ_self _)).sound _ ‹_›
      | exact Parser.not_internal_of_head (by simp)

theorem consumedBefore_ne_nil {cs after : List Char} (h : after.length < cs.length) :
    consumedBefore cs after ≠ [] := by
  intro hnil
  have := congrArg List.length hnil
  simp only [consumedBefore, List.length_take, List.length_nil] at this
  omega

/-- A token is at least one character long. -/
theorem lexToken_consumes {cs consumed : List Char} {kind : TokenKind}
    (h : lexToken cs = .ok (kind, consumed)) : consumed ≠ [] := by
  unfold lexToken at h
  split at h
  · cases h
  · rename_i c rest
    dsimp only at h
    repeat' split at h
    all_goals cases h <;> first
      | exact List.cons_ne_nil _ _
      | exact floatPrefix_ne_nil ‹_›
      | simpa using ‹(!(List.takeWhile Char.isDigit (c :: rest)).isEmpty) = true›
      | exact consumedBefore_ne_nil (Nat.lt_succ_of_lt
          ((stringBody_shortens _ _ rest [] (Nat.lt_succ_self _)).shorter _ _ ‹_›))
      | (rename_i hhex _ _
         split at hhex <;> (try split at hhex) <;> cases hhex
         exact List.cons_ne_nil _ _)

/-! ### Rounds of the reader -/

theorem State.skip_rest (st : State) (consumed : List Char) :
    (st.skip consumed).rest = st.rest.drop consumed.length := by
  unfold State.skip
  split
  rfl

theorem State.skip_shorter {st : State} {consumed : List Char} (hc : consumed ≠ []) (hr : st.rest ≠ []) :
    (st.skip consumed).rest.length < st.rest.length := by
  rw [State.skip_rest, List.length_drop]
  have := List.length_pos_iff.mpr hc
  have := List.length_pos_iff.mpr hr
  omega

theorem State.fail_internal (st : State) (message : String) :
    (st.fail message).Internal ↔ (message = ParseError.fuelMessage ∨ message = ParseError.rangeMessage) :=
  Iff.rfl

/-- Skipping blanks and comments with fuel above the length of the text fails only on an
unclosed comment, and leaves no more text than it found. -/
theorem skipTrivia_progress (prevEnd : Option Nat) (fuel : Nat) :
    ∀ st, st.rest.length < fuel →
      (∀ e, skipTrivia prevEnd fuel st = .error e → ¬ e.Internal) ∧
        ∀ st', skipTrivia prevEnd fuel st = .ok st' → st'.rest.length ≤ st.rest.length := by
  induction fuel with
  | zero => intro _ h; omega
  | succ fuel ih =>
    intro st h
    -- a run of blanks and a comment are never empty, so the rest starts from a shorter text
    have step : ∀ st₁, st₁.rest.length < st.rest.length →
        (∀ e, skipTrivia prevEnd fuel st₁ = .error e → ¬ e.Internal) ∧
          ∀ st', skipTrivia prevEnd fuel st₁ = .ok st' → st'.rest.length ≤ st.rest.length := by
      intro st₁ h₁
      obtain ⟨hs, hl⟩ := ih st₁ (by omega)
      exact ⟨hs, fun st' h' => by have := hl st' h'; omega⟩
    have stays : (∀ e, (.ok st : Except ParseError State) = .error e → ¬ e.Internal) ∧
        ∀ st', (.ok st : Except ParseError State) = .ok st' → st'.rest.length ≤ st.rest.length :=
      ⟨fun e he => (by cases he), fun st' he => by cases he; exact Nat.le_refl _⟩
    unfold skipTrivia
    split
    · rename_i c tail hrest
      have hne : st.rest ≠ [] := by simp [hrest]
      split
      · rename_i hblank
        refine step _ (State.skip_shorter ?_ hne)
        rw [hrest, List.takeWhile_cons_of_pos hblank]
        exact List.cons_ne_nil _ _
      · split
        · exact step _ (State.skip_shorter (List.cons_ne_nil _ _) hne)
        · split
          · exact ⟨fun e he => by cases he; exact (State.fail_internal _ _).not.mpr (by decide),
              fun st' he => (by cases he)⟩
          · exact step _ (State.skip_shorter (List.cons_ne_nil _ _) hne)
        · exact stays
    · exact stays

theorem run_sound (fuel : Nat) :
    ∀ st, st.rest.length < fuel → ∀ e, run fuel st = .error e → ¬ e.Internal := by
  induction fuel with
  | zero => intro _ h; omega
  | succ fuel ih =>
    intro st h e he
    unfold run at he
    have hskip := skipTrivia_progress (st.tokens.back?.map (·.span.endLine)) _ st (Nat.lt_succ_self _)
    rcases Except.bind_eq_error.mp he with he | ⟨st₁, hst₁, he⟩
    · exact hskip.1 e he
    have hle := hskip.2 st₁ hst₁
    split at he
    · cases he
    · rename_i hne
      split at he
      · cases he
        exact (State.fail_internal _ _).not.mpr (lexToken_sound ‹_›)
      · rename_i consumed hlex
        refine ih _ ?_ e he
        have := State.skip_shorter (lexToken_consumes hlex) (show st₁.rest ≠ [] from hne)
        exact Nat.lt_of_lt_of_le this (by omega)

end Lexer

/-- Reading a text into tokens fails only with a message of its own, never for want of fuel. -/
theorem tokenize_sound {cs : List Char} {e : ParseError} (h : tokenize cs = .error e) : ¬ e.Internal := by
  unfold tokenize at h
  rcases Except.bind_eq_error.mp h with h | ⟨ts, -, h⟩
  · exact Lexer.run_sound _ _ (Nat.lt_succ_self _) e h
  · cases h

end ProtoSchema
