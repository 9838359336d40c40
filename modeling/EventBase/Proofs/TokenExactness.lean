import EventBase.TokenCheck

/-! Which headers the server accepts, and whether it accepts its own client's. -/

namespace EventBase.Proofs.TokenExactness
open List Option

theorem diff_eq_zero_iff {a b : Bytes} (lengths : a.length = b.length) (diff : UInt8) :
    (a.zip b).foldl (fun diff pair => diff ||| (pair.1 ^^^ pair.2)) diff = 0 ↔ diff = 0 ∧ a = b := by
  induction a generalizing b diff with
  | nil => simp [eq_nil_of_length_eq_zero lengths.symm]
  | cons first rest ih =>
    cases b with
    | nil => cases lengths
    | cons other others =>
      rw [zip_cons_cons, foldl_cons, ih (Nat.succ.inj lengths), UInt8.or_eq_zero_iff, UInt8.xor_eq_zero_iff,
        List.cons.injEq, and_assoc]

theorem constantTimeEq_iff (a b : Bytes) : constantTimeEq a b = true ↔ a = b := by
  unfold constantTimeEq
  split
  · next different =>
    refine ⟨nofun, ?_⟩
    rintro rfl
    exact absurd rfl different
  · next same => rw [beq_iff_eq, diff_eq_zero_iff (by simpa using same), eq_self, true_and]

section
variable {rules : HeaderRules} {metadata : MetadataMap rules} {token s : Bytes}

theorem checkToken_iff (header : authorization metadata = some s) :
    checkToken metadata token = .ok () ↔ (stripPrefix scheme s).getD s = token := by
  rw [checkToken, header, ← constantTimeEq_iff]
  simp

theorem stripped_iff : (stripPrefix scheme s).getD s = token ↔ s = scheme ++ token ∨ (s = token ∧ ¬ scheme <+: token) := by
  by_cases starts : scheme <+: s
  · obtain ⟨rest, rfl⟩ := starts
    have stripped : stripPrefix scheme (scheme ++ rest) = some rest := by simp [stripPrefix]
    rw [stripped, getD_some, append_cancel_left_eq]
    refine ⟨.inl, ?_⟩
    rintro (same | ⟨rfl, bare⟩)
    · exact same
    · exact absurd (prefix_append scheme rest) bare
  · have kept : stripPrefix scheme s = none := by simpa [stripPrefix] using starts
    rw [kept, getD_none]
    constructor
    · rintro rfl
      exact .inr ⟨rfl, starts⟩
    · rintro (rfl | ⟨rfl, _⟩)
      · exact absurd (prefix_append scheme token) starts
      · rfl

theorem scheme_length : scheme.length = 7 := by decide +kernel

theorem visible_of_authorization (header : authorization metadata = some s) : s.all rules.isVisible = true := by
  obtain ⟨value, _, read⟩ := bind_eq_some_iff.mp header
  obtain ⟨visible, same⟩ := ite_none_right_eq_some.mp read
  cases same
  exact visible

theorem authorization_attachToken (legal : token.all rules.isLegal = true) :
    authorization (attachToken metadata token) = if token.all rules.isVisible then some (scheme ++ token) else none := by
  have allowed : (scheme ++ token).all rules.isLegal = true := by
    rw [List.all_append, legal, Bool.and_true, List.all_eq_true]
    exact fun byte member => rules.legal_of_visible byte (all_eq_true.mp rules.scheme_visible byte member)
  have visible : (scheme ++ token).all rules.isVisible = token.all rules.isVisible := by
    rw [all_append, rules.scheme_visible, Bool.true_and]
  rw [attachToken, MetadataValue.tryFrom, dif_pos allowed, authorization, AList.lookup_insert, bind_some,
    MetadataValue.toStr, visible]

theorem attached_accepted_iff (legal : token.all rules.isLegal = true) (server : Bytes) :
    checkToken (attachToken metadata token) server = .ok () ↔ server = token ∧ token.all rules.isVisible = true := by
  have header := @authorization_attachToken _ metadata token legal
  split at header
  · next visible =>
    rw [checkToken_iff header, stripped_iff, append_cancel_left_eq, visible, eq_self, and_true]
    constructor
    · rintro (same | ⟨rfl, bare⟩)
      · exact same.symm
      · exact absurd (prefix_append scheme token) bare
    · rintro rfl
      exact .inl rfl
  · next hidden =>
    rw [checkToken, header]
    simp [hidden]

end

/-- The header strings that are accepted are the token and the scheme word with the token. -/
def Exact (rules : HeaderRules) (token : Bytes) : Prop :=
  ∀ metadata : MetadataMap rules, ∀ s ∈ authorization metadata, checkToken metadata token = .ok () ↔ s = token ∨ s = scheme ++ token

/-- What a client with the token sends is accepted by the servers that have it and by no others. -/
def Agrees (rules : HeaderRules) (token : Bytes) : Prop :=
  ∀ (metadata : MetadataMap rules) server, (checkToken (attachToken metadata token) server = .ok () ↔ server = token) ∧
    (checkToken (AuthInterceptor.call ⟨token⟩ metadata) server = .ok () ↔ server = token)

theorem bare_header {rules token} (visible : token.all rules.isVisible = true) :
    ∃ metadata : MetadataMap rules, authorization metadata = some token := by
  have legal : token.all rules.isLegal = true := by
    rw [List.all_eq_true] at visible ⊢
    exact fun byte member => rules.legal_of_visible byte (visible byte member)
  refine ⟨(∅ : MetadataMap rules).insert "authorization" ⟨token, legal⟩, ?_⟩
  rw [authorization, AList.lookup_insert, bind_some, MetadataValue.toStr, if_pos visible]

theorem exact_iff (rules : HeaderRules) (token : Bytes) : Exact rules token ↔ ¬ (scheme <+: token ∧ token.all rules.isVisible = true) := by
  constructor
  · rintro exact_ ⟨starts, visible⟩
    obtain ⟨metadata, header⟩ := bare_header visible
    have accepted := (exact_ metadata token header).mpr (.inl rfl)
    rcases stripped_iff.mp ((checkToken_iff header).mp accepted) with same | ⟨_, bare⟩
    · have lengths := congrArg List.length same
      rw [length_append, scheme_length] at lengths
      omega
    · exact bare starts
  · intro safe metadata s header
    rw [checkToken_iff header, stripped_iff, or_comm]
    refine or_congr_left ⟨fun bare => bare.1, ?_⟩
    rintro rfl
    exact ⟨rfl, fun starts => safe ⟨starts, visible_of_authorization header⟩⟩

theorem agrees_iff {rules token} (nonempty : token ≠ []) (legal : token.all rules.isLegal = true) :
    Agrees rules token ↔ token.all rules.isVisible = true := by
  have sent (metadata : MetadataMap rules) : AuthInterceptor.call ⟨token⟩ metadata = attachToken metadata token := by
    simp [AuthInterceptor.call, nonempty]
  simp only [Agrees, sent, and_self, attached_accepted_iff legal]
  exact ⟨fun agrees => ((agrees ∅ token).mpr rfl).2, fun visible _ _ => and_iff_left visible⟩

/-- Token checking is exact and agrees with the client, unless the token itself begins with
the scheme word or has bytes that a header may hold but no header string. -/
theorem token_check_exact_iff (rules : HeaderRules) (token : Bytes) :
    Exact rules token ∧ (token ≠ [] → token.all rules.isLegal = true → Agrees rules token) ↔
      ¬ (scheme <+: token ∧ token.all rules.isVisible = true) ∧
        (token ≠ [] → token.all rules.isLegal = true → token.all rules.isVisible = true) := by
  rw [exact_iff]
  refine and_congr_right fun _ => forall_congr' fun nonempty => forall_congr' fun legal => ?_
  exact agrees_iff nonempty legal

/-- A bare token that begins with the scheme word is refused, and a token outside ASCII is
refused when its own client sends it. -/
theorem scheme_token_refused :
    (∃ value ∈ MetadataValue.tryFrom (asBytes "Bearer x"),
      checkToken ((∅ : MetadataMap .http).insert "authorization" value) (asBytes "Bearer x") = .error ⟨"invalid token"⟩) ∧
      checkToken (attachToken (∅ : MetadataMap .http) (asBytes "é")) (asBytes "é") = .error ⟨"missing authorization metadata"⟩ := by
  decide +kernel

end EventBase.Proofs.TokenExactness
