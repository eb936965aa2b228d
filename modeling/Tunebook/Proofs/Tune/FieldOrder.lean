import Tunebook.Proofs.Tune.Locality

namespace Tunebook

namespace Token

def isComment : Token → Bool
  | comment _ => true
  | _ => false

/-- Fields that are written into the header. A voice field belongs to the music. -/
def isHeader : Token → Bool
  | field kind _ => kind != .voice
  | _ => false

def isBody (t : Token) : Bool :=
  !t.isComment && !t.isHeader

theorem IsMusic.isBody {t : Token} (h : t.IsMusic) : t.isBody = true := by
  cases t with
  | field kind value => exact h.elim
  | comment text => exact h.elim
  | _ => rfl

/-- The fields of the header, then everything else but the comments. -/
def fieldsFirst (ks : List Token) : List Token :=
  ks.filter isHeader ++ ks.filter isBody

end Token

namespace Reading

open Music Reader

def under (r header : Reading) : Reading :=
  { r with tune := header.tune, lengthGiven := header.lengthGiven }

theorem under_self (r : Reading) : r.under r = r := rfl

theorem music_under (r header : Reading) (t : PlacedToken) (strokes : List Stroke) :
    (r.under header).music t strokes = (r.music t strokes).map fun next => next.under header := by
  have hdrafts : (r.under header).drafts = r.drafts := rfl
  unfold music
  rw [hdrafts]
  cases strokes.foldlM Drafts.write r.drafts.ensureCurrent <;> rfl

/-- Music and voice fields leave the header alone and do not look at it. -/
theorem step_body (r header : Reading) (t : PlacedToken) (ts : Tokens)
    (ht : t.token.isBody = true) :
    (r.under header).step none t ts =
      (r.step none t ts).map fun next => (next.1.under header, next.2) := by
  have hlift : ∀ strokes ts, lift ((r.under header).music t strokes) ts =
      (lift (r.music t strokes) ts).map fun next => (next.1.under header, next.2) := by
    intro strokes ts
    rw [music_under]
    simp only [lift]
    cases r.music t strokes <;> rfl
  rw [step_eq, step_eq]
  cases hk : t.token with
  | field kind value =>
    rw [hk] at ht
    cases kind with
    | voice =>
      simp only [lift, field]
      cases Header.voiceName value.toList <;> rfl
    | _ => cases ht
  | comment text =>
    rw [hk] at ht
    cases ht
  | barline line => exact hlift _ ts
  | ending which => exact hlift _ ts
  | _ =>
    dsimp only [andThen]
    rcases elements none t ts with e | ⟨es, rest⟩
    · rfl
    · exact hlift _ rest

theorem field_eq (r : Reading) (kind : FieldKind) (value : String) (hk : kind ≠ .voice) :
    r.field kind value = (Header.apply r.tune kind value).map fun tune =>
      { r with tune, lengthGiven := r.lengthGiven || kind == .defaultLength } := by
  cases kind with
  | voice => exact absurd rfl hk
  | _ => rfl

/-- Fields of the header leave the voices alone and do not look at them. -/
theorem step_header (r voices : Reading) (t : PlacedToken) (ts : Tokens)
    (ht : t.token.isHeader = true) :
    (voices.under r).step none t ts =
      (r.step none t ts).map fun next => (voices.under next.1, next.2) := by
  rw [step_eq, step_eq]
  cases hk : t.token with
  | field kind value =>
    rw [hk] at ht
    have hvoice : kind ≠ .voice := by simpa [Token.isHeader] using ht
    have htune : (voices.under r).tune = r.tune := rfl
    dsimp only [lift]
    rw [field_eq _ _ _ hvoice, field_eq _ _ _ hvoice, htune]
    cases Header.apply r.tune kind value <;> rfl
  | _ =>
    rw [hk] at ht
    cases ht

/-- A token that was read by itself does not carry on another. -/
theorem step_continues {r : Reading} {t : PlacedToken} {ts : Tokens} {next : Reading × Tokens}
    (h : r.step none t ts = .ok next) : t.token.continues = false := by
  rw [step_eq] at h
  cases hk : t.token with
  | octave | digits | fractionBar =>
    rw [hk] at h
    obtain ⟨es, rest, he, -⟩ := andThen_eq_ok h
    rw [elements_eq, hk] at he
    cases he
  | _ => rfl

theorem step_comment (r : Reading) {t : PlacedToken} (ht : t.token.isComment = true) :
    r.step none t = give r := by
  rw [step_eq]
  cases hk : t.token with
  | comment text => rfl
  | _ =>
    rw [hk] at ht
    cases ht

theorem step_field (r : Reading) {t : PlacedToken} (ht : t.token.isHeader = true) :
    ∃ x, r.step none t = lift x := by
  rw [step_eq]
  cases hk : t.token with
  | field kind value => exact ⟨_, rfl⟩
  | _ =>
    rw [hk] at ht
    cases ht

def headerTokens (ts : Tokens) : Tokens :=
  ts.filter fun t => t.token.isHeader

def bodyTokens (ts : Tokens) : Tokens :=
  ts.filter fun t => t.token.isBody

theorem filter_comment {t : PlacedToken} (ht : t.token.isComment = true) (ts : Tokens) :
    headerTokens (t :: ts) = headerTokens ts ∧ bodyTokens (t :: ts) = bodyTokens ts := by
  have hheader : t.token.isHeader = false := by
    cases hk : t.token with
    | field => rw [hk] at ht; cases ht
    | _ => rfl
  simp [headerTokens, bodyTokens, Token.isBody, ht, hheader]

theorem filter_header {t : PlacedToken} (ht : t.token.isHeader = true) (ts : Tokens) :
    headerTokens (t :: ts) = t :: headerTokens ts ∧ bodyTokens (t :: ts) = bodyTokens ts := by
  simp [headerTokens, bodyTokens, Token.isBody, ht]

theorem filter_body {taken : Tokens} (ht : ∀ t ∈ taken, t.token.isBody = true) (rest : Tokens) :
    headerTokens (taken ++ rest) = headerTokens rest ∧
      bodyTokens (taken ++ rest) = taken ++ bodyTokens rest := by
  have hheader : ∀ t ∈ taken, t.token.isHeader = false := by
    intro t hm
    have hbody := ht t hm
    simp only [Token.isBody, Bool.and_eq_true, Bool.not_eq_true'] at hbody
    exact hbody.2
  have hnone : headerTokens taken = [] := List.filter_eq_nil_iff.2 (by simpa using hheader)
  have hall : bodyTokens taken = taken := List.filter_eq_self.2 ht
  constructor
  · rw [headerTokens, List.filter_append]
    exact congrArg (· ++ headerTokens rest) hnone
  · rw [bodyTokens, List.filter_append]
    exact congrArg (· ++ bodyTokens rest) hall

/-- A reading that comes to an end, token by token. -/
inductive Reads : Reading → Tokens → Reading → Prop
  | done (r : Reading) : Reads r [] r
  | comment {r r' : Reading} {t : PlacedToken} {ts : Tokens} (ht : t.token.isComment = true)
    (h : Reads r ts r') : Reads r (t :: ts) r'
  | header {r next r' : Reading} {t : PlacedToken} {ts : Tokens} (ht : t.token.isHeader = true)
    (hs : ∀ us, r.step none t us = .ok (next, us)) (h : Reads next ts r') : Reads r (t :: ts) r'
  | body {r next r' : Reading} {t : PlacedToken} {taken rest : Tokens}
    (ht : t.token.isBody = true) (htaken : ∀ u ∈ taken, u.token.isBody = true)
    (hs : ∀ rest', Follows rest rest' → r.step none t (taken ++ rest') = .ok (next, rest'))
    (h : Reads next rest r') : Reads r (t :: taken ++ rest) r'

theorem run_reads {r r' : Reading} {ts : Tokens} (h : r.run none ts = .ok r') : Reads r ts r' := by
  -- a step may take several tokens, so the induction is on how many are left
  induction hn : ts.length using Nat.strong_induction_on generalizing r ts with
  | _ n ih =>
    cases ts with
    | nil =>
      rw [run] at h
      cases h
      exact .done _
    | cons t ts =>
      rw [run_cons] at h
      rcases hs : r.step none t ts with e | ⟨next, rest⟩ <;> rw [hs] at h
      · cases h
      have hlt : rest.length < n := by
        rw [← hn]
        exact Nat.lt_succ_of_le (step_length hs)
      have hnext : Reads next rest r' := ih _ hlt h rfl
      by_cases hcomment : t.token.isComment = true
      · rw [step_comment r hcomment] at hs
        cases hs
        exact .comment hcomment hnext
      by_cases hheader : t.token.isHeader = true
      · obtain ⟨x, hx⟩ := step_field r hheader
        rw [hx] at hs
        obtain ⟨_, rfl, hpair⟩ := exists_of_map_eq_ok hs
        cases hpair
        exact .header hheader (fun us => by rw [hx]; rfl) hnext
      · obtain ⟨taken, rfl, hmusic, hrest⟩ := step_local r t ts next rest hs
        refine .body ?_ (fun u hu => (hmusic u hu).isBody) hrest hnext
        simp [Token.isBody, hcomment, hheader]

theorem under_of_body {r next : Reading} {t : PlacedToken} {ts rest : Tokens}
    (ht : t.token.isBody = true) (h : r.step none t ts = .ok (next, rest)) (voices : Reading) :
    voices.under next = voices.under r := by
  have hstep := step_body r r t ts ht
  rw [under_self, h] at hstep
  have hnext : next = next.under r := congrArg Prod.fst (Except.ok.inj hstep)
  rw [hnext]
  rfl

theorem under_of_header {r next : Reading} {t : PlacedToken} {ts rest : Tokens}
    (ht : t.token.isHeader = true) (h : r.step none t ts = .ok (next, rest)) (header : Reading) :
    next.under header = r.under header := by
  have hstep := step_header r r t ts ht
  rw [under_self, h] at hstep
  have hnext : next = r.under next := congrArg Prod.fst (Except.ok.inj hstep)
  rw [hnext]
  rfl

/-- The first token of the body was read by itself. -/
theorem Reads.clear {r r' : Reading} {ts : Tokens} (h : Reads r ts r') : Clear (bodyTokens ts) := by
  induction h with
  | done => exact clear_nil
  | comment ht _ ih => rwa [(filter_comment ht _).2]
  | header ht _ _ ih => rwa [(filter_header ht _).2]
  | body ht htaken hs _ _ =>
    rw [(filter_body (List.forall_mem_cons.2 ⟨ht, htaken⟩) _).2, List.cons_append, clear_cons]
    exact step_continues (hs _ (Or.inr rfl))

theorem Reads.run_headers {r r' : Reading} {ts : Tokens} (h : Reads r ts r') (voices : Reading)
    (us : Tokens) :
    (voices.under r).run none (headerTokens ts ++ us) = (voices.under r').run none us := by
  induction h with
  | done => rfl
  | comment ht _ ih => rwa [(filter_comment ht _).1]
  | @header r _ _ _ _ ht hs _ ih =>
    rw [(filter_header ht _).1, List.cons_append, run_cons, step_header r voices _ _ ht, hs]
    exact ih
  | @body r next _ t _ _ ht htaken hs _ ih =>
    rw [(filter_body (List.forall_mem_cons.2 ⟨ht, htaken⟩) _).1,
      ← under_of_body ht (hs _ (Or.inr rfl)) voices]
    exact ih

/-- What is left without comments and fields of the header makes the voices. -/
theorem Reads.run_body {r r' : Reading} {ts : Tokens} (h : Reads r ts r') (header : Reading) :
    (r.under header).run none (bodyTokens ts) = .ok (r'.under header) := by
  induction h with
  | done =>
    rw [bodyTokens, List.filter_nil, run]
    rfl
  | comment ht _ ih => rwa [(filter_comment ht _).2]
  | @header r next _ t _ ht hs _ ih =>
    rw [(filter_header ht _).2, ← under_of_header ht (hs []) header]
    exact ih
  | body ht htaken hs hnext ih =>
    -- what comes next in the body was read by itself, so it does not carry on these tokens
    rw [(filter_body (List.forall_mem_cons.2 ⟨ht, htaken⟩) _).2, List.cons_append, run_cons,
      step_body _ _ _ _ ht, hs _ (Or.inl hnext.clear)]
    exact ih

theorem run_fieldsFirst {r r' : Reading} {ts : Tokens} (h : r.run none ts = .ok r') :
    r.run none (headerTokens ts ++ bodyTokens ts) = .ok r' := by
  have hreads := run_reads h
  have hheaders := hreads.run_headers r (bodyTokens ts)
  rw [under_self] at hheaders
  rw [hheaders]
  exact hreads.run_body r'

end Reading

namespace Tune

open Reading

theorem ofTokens_fieldsFirst {ts : Music.Tokens} {t : Tune} (h : ofTokens ⟨ts, none⟩ = .ok t) :
    ofTokens ⟨headerTokens ts ++ bodyTokens ts, none⟩ = .ok t := by
  unfold ofTokens at h ⊢
  rcases hr : Reading.start.run none ts with e | r <;> simp only [hr] at h
  · cases h
  · simp only [run_fieldsFirst hr]
    exact h

theorem map_fieldsFirst (ts : Music.Tokens) :
    (headerTokens ts ++ bodyTokens ts).map PlacedToken.token =
      Token.fieldsFirst (ts.map PlacedToken.token) := by
  rw [Token.fieldsFirst, List.filter_map, List.filter_map, List.map_append]
  rfl

/-- Blanks, comments and the places of header fields are of no account, if there are no lexical
errors: not for what is read, and blanks not even for what is found wrong. -/
theorem read_fieldsFirst (text text' : String) (h : (Lexed.ofText text).failure = none)
    (h' : (Lexed.ofText text').failure = none) :
    ((Lexed.ofText text').kinds = (Lexed.ofText text).kinds →
      (read text').mapError TuneError.unplaced = (read text).mapError TuneError.unplaced) ∧
    ((Lexed.ofText text').kinds = Token.fieldsFirst (Lexed.ofText text).kinds →
      ∀ t, read text = .ok t → read text' = .ok t) := by
  have hread : read text = ofTokens ⟨(Lexed.ofText text).tokens, none⟩ := by
    rw [← h]
    rfl
  have hread' : read text' = ofTokens ⟨(Lexed.ofText text').tokens, none⟩ := by
    rw [← h']
    rfl
  rw [hread, hread']
  refine ⟨fun hkinds => ofTokens_unplaced _ _ hkinds, ?_⟩
  intro hkinds t ht
  have hmoved := ofTokens_fieldsFirst ht
  rw [Lexed.kinds, Lexed.kinds, ← map_fieldsFirst] at hkinds
  rw [← TuneError.unplaced_eq_ok, ofTokens_unplaced _ _ hkinds, TuneError.unplaced_eq_ok]
  exact hmoved

/-- A meter in the middle of the music, a title between the endings, and comments after notes. -/
def scatteredText : String :=
  "X:1\n|: ^c2 %up\nM:2/4\n [1 d,/ :|\n% turn\nT:Late\n[2 z ||\nV:low\n[C E]2% last\nK:G\n|"

def tidyText : String :=
  "X:1\nM:2/4\nT:Late\nK:G\n|:^c2[1d,/:|[2z||\nV:low\n[CE]2|"

theorem read_fieldsFirst_scattered :
    ∃ t, read scatteredText = .ok t ∧ read tidyText = .ok t ∧ t.defaultLength = ⟨1, 16⟩ := by
  obtain ⟨t, ht, hlength⟩ := exists_of_any (show (read scatteredText).toOption.any
    (fun t => t.defaultLength == ⟨1, 16⟩) = true by decide +kernel)
  have hlex : (Lexed.ofText scatteredText).failure = none := by decide +kernel
  have hlex' : (Lexed.ofText tidyText).failure = none := by decide +kernel
  have hkinds : (Lexed.ofText tidyText).kinds =
      Token.fieldsFirst (Lexed.ofText scatteredText).kinds := by decide +kernel
  exact ⟨t, ht, (read_fieldsFirst scatteredText tidyText hlex hlex').2 hkinds t ht,
    by simpa using hlength⟩

end Tune

end Tunebook
