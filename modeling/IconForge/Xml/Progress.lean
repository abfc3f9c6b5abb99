import IconForge.Xml.Token

set_option autoImplicit false

/-! # Progress

Every reader of tokens takes at least one character off its text, so reading a document token by
token comes to an end. -/

namespace IconForge.Xml

theorem length_lt_of_readComment {cs rest : List Char} (h : readComment cs = .ok rest) :
    rest.length < cs.length := by
  fun_induction readComment cs with
  | case1 => cases h
  | case2 => cases h; simp only [List.length_cons]; omega
  | case3 => cases h
  | case4 _ _ _ _ _ ih => have := ih h; simp only [List.length_cons]; omega
  | case5 => cases h

theorem length_lt_of_readInstructionText {cs rest : List Char}
    (h : readInstructionText cs = .ok rest) : rest.length < cs.length := by
  fun_induction readInstructionText cs with
  | case1 => cases h
  | case2 => cases h; simp only [List.length_cons]; omega
  | case3 _ _ _ _ ih => have := ih h; simp only [List.length_cons]; omega
  | case4 => cases h

theorem length_lt_of_readSection {cs rest : List Char} (h : readSection cs = .ok rest) :
    rest.length < cs.length := by
  fun_induction readSection cs with
  | case1 => cases h
  | case2 => cases h; simp only [List.length_cons]; omega
  | case3 _ _ _ _ ih => have := ih h; simp only [List.length_cons]; omega
  | case4 => cases h

theorem length_le_of_readWord {word cs rest : List Char} (h : readWord word cs = .ok rest) :
    rest.length ≤ cs.length := by
  fun_induction readWord word cs with
  | case1 => cases h; exact Nat.le_refl _
  | case2 => cases h
  | case3 _ _ _ ih => have := ih h; simp only [List.length_cons]; omega
  | case4 => cases h

theorem length_lt_of_readInstruction {cs rest : List Char} {isDeclaration : Bool}
    (h : readInstruction cs = .ok (isDeclaration, rest)) : rest.length < cs.length := by
  unfold readInstruction at h
  split at h
  · cases h
  · cases h
  · next name c behind h₁ =>
    have h₁ := length_lt_of_readSimpleName h₁
    simp only [List.length_cons] at h₁
    split at h
    · split at h
      · cases h
      · simp only at h
        split at h
        · split at h
          · cases h
            simp only [List.length_cons] at h₁
            omega
          · cases h
        · split at h
          · cases h
          · next h₂ =>
            have := length_lt_of_readInstructionText h₂
            cases h
            omega
    · cases h

theorem length_lt_of_readClosingTag {cs name rest : List Char}
    (h : readClosingTag cs = .ok (name, rest)) : rest.length < cs.length := by
  unfold readClosingTag at h
  split at h
  · cases h
  · next c behind =>
    split at h
    · split at h
      · next h₁ =>
        have h₁ := h₁ ▸ length_skipSpace_le ((c :: behind).dropWhile isClosingNameCharacter)
        have h₂ := length_dropWhile_le isClosingNameCharacter (c :: behind)
        cases h
        simp only [List.length_cons] at h₁ h₂ ⊢
        omega
      · cases h
    · cases h

theorem length_lt_of_readAttributes {cs rest : List Char} {answer : List Attribute × Bool}
    (h : readAttributes cs = .ok (answer, rest)) : rest.length < cs.length := by
  fun_induction readAttributes cs generalizing answer rest with
  | case1 => cases h
  | case2 => cases h; simp
  | case3 => cases h; simp only [List.length_cons]; omega
  | case4 => cases h
  | case5 =>
    rename_i behind _ _ _ _ _ hnext
    have := hnext ▸ length_skipSpace_le behind
    cases h
    simp only [List.length_cons] at this ⊢
    omega
  | case6 =>
    rename_i behind _ _ _ _ _ hnext
    have := hnext ▸ length_skipSpace_le behind
    cases h
    simp only [List.length_cons] at this ⊢
    omega
  | case7 => cases h
  | case8 => cases h
  | case9 => cases h
  | case10 =>
    rename_i hattributes _ _ _ _ hlt ih
    have := ih hattributes
    cases h
    simp only [List.length_cons]
    omega
  | case11 => cases h

theorem length_lt_of_readTag {cs rest : List Char} {tag : Tag}
    (h : readTag cs = .ok (tag, rest)) : rest.length < cs.length := by
  unfold readTag at h
  split at h
  · cases h
  · next h₁ =>
    split at h
    · cases h
    · next h₂ =>
      have := length_lt_of_readName h₁
      have := length_lt_of_readAttributes h₂
      cases h
      omega

/-- A mapped reading succeeds exactly when the reading does. -/
theorem ok_of_map_eq_ok {α β : Type} {f : α → β} {reading : Except Stop α} {b : β}
    (h : reading.map f = .ok b) : ∃ a, reading = .ok a ∧ f a = b := by
  cases reading with
  | error stop => cases h
  | ok a => exact ⟨a, rfl, by simpa [Except.map] using h⟩

theorem length_lt_of_readMarkup {cs rest : List Char} {token : Token}
    (h : readMarkup cs = .ok (token, rest)) : rest.length < cs.length := by
  unfold readMarkup at h
  split at h
  · obtain ⟨_, h₁, h₂⟩ := ok_of_map_eq_ok h
    have := length_lt_of_readComment h₁
    cases h₂
    simp only [List.length_cons]
    omega
  · cases h
  · split at h
    · cases h
    · next h₀ =>
      obtain ⟨_, h₁, h₂⟩ := ok_of_map_eq_ok h
      have := length_le_of_readWord h₀
      have := length_lt_of_readSection h₁
      cases h₂
      simp only [List.length_cons]
      omega
  · cases h
  · obtain ⟨_, h₁, h₂⟩ := ok_of_map_eq_ok h
    have := length_lt_of_readInstruction h₁
    cases h₂
    simp only [List.length_cons]
    omega
  · obtain ⟨_, h₁, h₂⟩ := ok_of_map_eq_ok h
    have := length_lt_of_readClosingTag h₁
    cases h₂
    simp only [List.length_cons]
    omega
  · obtain ⟨_, h₁, h₂⟩ := ok_of_map_eq_ok h
    have := length_lt_of_readTag h₁
    cases h₂
    exact this

/-- Reading a token shortens the text. -/
theorem length_lt_of_readToken {cs rest : List Char} {token : Token}
    (h : readToken cs = .ok (token, rest)) : rest.length < cs.length := by
  unfold readToken at h
  split at h
  · cases h
  · have := length_lt_of_readMarkup h
    simp only [List.length_cons]
    omega
  · obtain ⟨_, h₁, h₂⟩ := ok_of_map_eq_ok h
    have := length_lt_of_readReference h₁
    cases h₂
    simp only [List.length_cons]
    omega
  · cases h
  · split at h
    · cases h
      simp
    · cases h

end IconForge.Xml
