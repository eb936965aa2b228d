import Mathlib.Data.List.Forall2

namespace Tunebook

/-- Each member with all that stands before it. -/
def withEarlier {α : Type} (as : List α) : List (List α × α) :=
  as.zipIdx.map fun x => (as.take x.2, x.1)

theorem withEarlier_cons {α : Type} (a : α) (as : List α) :
    withEarlier (a :: as) = ([], a) :: (withEarlier as).map fun x => (a :: x.1, x.2) := by
  unfold withEarlier
  rw [List.zipIdx_cons, List.zipIdx_succ, List.map_cons, List.map_map, List.map_map]
  rfl

theorem exists_forall₂_iff {α β : Type} {R : α → β → Prop} {as : List α} :
    (∃ bs, List.Forall₂ R as bs) ↔ ∀ a ∈ as, ∃ b, R a b := by
  induction as with
  | nil => simp
  | cons a as ih =>
    rw [List.forall_mem_cons, ← ih]
    constructor
    · rintro ⟨_, h⟩
      cases h with
      | cons hab htail => exact ⟨⟨_, hab⟩, _, htail⟩
    · rintro ⟨⟨b, hab⟩, bs, htail⟩
      exact ⟨b :: bs, .cons hab htail⟩

theorem exists_map_eq_of_forall₂ {α β γ : Type} {R : α → β → Prop} {Q : α → γ → Prop} {f : γ → β}
    {as : List α} {bs : List β} (h : List.Forall₂ R as bs)
    (hsplit : ∀ a ∈ as, ∀ b, R a b → ∃ c, f c = b ∧ Q a c) :
    ∃ cs, cs.map f = bs ∧ List.Forall₂ Q as cs := by
  induction h with
  | nil => exact ⟨[], rfl, .nil⟩
  | @cons a b as bs hab _ ih =>
    obtain ⟨c, hc, hQ⟩ := hsplit a List.mem_cons_self b hab
    obtain ⟨cs, hcs, hQs⟩ := ih fun a' ha' => hsplit a' (List.mem_cons_of_mem a ha')
    exact ⟨c :: cs, by rw [List.map_cons, hc, hcs], .cons hQ hQs⟩

theorem exists_of_append_eq_append_cons {α : Type} {as bs before after : List α} {a : α}
    (h : as ++ bs = before ++ a :: after) :
    (∃ rest, as = before ++ a :: rest) ∨ ∃ rest, before = as ++ rest ∧ bs = rest ++ a :: after := by
  rcases List.append_eq_append_iff.1 h with ⟨rest, hbefore, hbs⟩ | ⟨rest, has, hafter⟩
  · exact Or.inr ⟨rest, hbefore, hbs⟩
  · cases rest with
    | nil =>
      rw [List.append_nil] at has
      exact Or.inr ⟨[], by rw [has, List.append_nil], hafter.symm⟩
    | cons b rest =>
      obtain ⟨rfl, -⟩ := List.cons.inj hafter
      exact Or.inl ⟨rest, has⟩

theorem append_singleton_eq_append_cons {α : Type} {as before after : List α} {a b : α} :
    as ++ [a] = before ++ b :: after ↔
      before = as ∧ b = a ∧ after = [] ∨ ∃ rest, after = rest ++ [a] ∧ as = before ++ b :: rest := by
  constructor
  · intro h
    rcases List.eq_nil_or_concat after with rfl | ⟨rest, c, rfl⟩
    · obtain ⟨rfl, ha⟩ := List.append_inj' h rfl
      exact Or.inl ⟨rfl, (List.cons.inj ha).1.symm, rfl⟩
    · rw [List.concat_eq_append, ← List.cons_append, ← List.append_assoc] at h
      obtain ⟨rfl, ha⟩ := List.append_inj' h rfl
      obtain rfl := (List.cons.inj ha).1
      exact Or.inr ⟨rest, List.concat_eq_append, rfl⟩
  · rintro (⟨rfl, rfl, rfl⟩ | ⟨rest, rfl, rfl⟩)
    · rfl
    · simp

theorem forall_split_cons {α : Type} {P : List α → α → Prop} {a : α} {as : List α} :
    (∀ before b after, a :: as = before ++ b :: after → P before b) ↔
      P [] a ∧ ∀ before b after, as = before ++ b :: after → P (a :: before) b := by
  constructor
  · intro h
    refine ⟨h [] a as rfl, ?_⟩
    rintro before b after rfl
    exact h (a :: before) b after rfl
  · rintro ⟨hfirst, hrest⟩ before b after hsplit
    cases before with
    | nil =>
      obtain ⟨rfl, -⟩ := List.cons.inj hsplit
      exact hfirst
    | cons c before =>
      obtain ⟨rfl, has⟩ := List.cons.inj hsplit
      exact hrest before b after has

theorem append_eq_append_iff_of_length {α : Type} {as as' bs bs' : List α}
    (h : as'.length = as.length) : as' ++ bs' = as ++ bs ↔ as' = as ∧ bs' = bs := by
  constructor
  · intro he
    exact List.append_inj he h
  · rintro ⟨rfl, rfl⟩
    rfl

/-- Pieces of the same lengths make up the same list only if they are the same. -/
theorem flatMap_eq_flatMap_iff {α β : Type} {f g : α → List β} {as : List α}
    (h : ∀ a ∈ as, (f a).length = (g a).length) :
    as.flatMap f = as.flatMap g ↔ ∀ a ∈ as, f a = g a := by
  induction as with
  | nil => simp
  | cons a as ih =>
    rw [List.forall_mem_cons] at h
    rw [List.flatMap_cons, List.flatMap_cons, append_eq_append_iff_of_length h.1, ih h.2,
      List.forall_mem_cons]

theorem map_flatten_of_forall₂ {α β γ : Type} {f : α → List γ} {g : β → γ} {as : List α}
    {parts : List (List β)} (h : List.Forall₂ (fun a part => part.map g = f a) as parts) :
    parts.flatten.map g = as.flatMap f := by
  induction h with
  | nil => rfl
  | cons hpart _ ih => rw [List.flatten_cons, List.map_append, hpart, ih, List.flatMap_cons]

section

variable {m : Type → Type} [Monad m] [LawfulMonad m]

theorem mapM_congr_left {α β : Type} {f g : α → m β} {as : List α} (h : ∀ a ∈ as, f a = g a) :
    as.mapM f = as.mapM g := by
  induction as with
  | nil => rfl
  | cons a as ih =>
    rw [List.forall_mem_cons] at h
    rw [List.mapM_cons, List.mapM_cons, h.1, ih h.2]

/-- In a monad whose results come only from results, a list has a result if each member has. -/
theorem mapM_eq_pure_iff {α β : Type} {f : α → m β} {as : List α} {bs : List β}
    (hpure : ∀ {γ : Type} {x y : γ}, (pure x : m γ) = pure y → x = y)
    (hbind : ∀ {γ δ : Type} {x : m γ} {g : γ → m δ} {d : δ}, x >>= g = pure d →
      ∃ c, x = pure c ∧ g c = pure d) :
    as.mapM f = pure bs ↔ List.Forall₂ (fun a b => f a = pure b) as bs := by
  induction as generalizing bs with
  | nil =>
    rw [List.mapM_nil, List.forall₂_nil_left_iff]
    constructor
    · intro h
      exact (hpure h).symm
    · rintro rfl
      rfl
  | cons a as ih =>
    rw [List.mapM_cons, List.forall₂_cons_left_iff]
    constructor
    · intro h
      obtain ⟨b, hb, h⟩ := hbind h
      obtain ⟨rest, hrest, h⟩ := hbind h
      exact ⟨b, rest, hb, ih.1 hrest, (hpure h).symm⟩
    · rintro ⟨b, rest, hb, hrest, rfl⟩
      rw [hb, ih.2 hrest, pure_bind, pure_bind]

end

theorem mapM_eq_some_iff {α β : Type} {f : α → Option β} {as : List α} {bs : List β} :
    as.mapM f = some bs ↔ List.Forall₂ (fun a b => f a = some b) as bs :=
  mapM_eq_pure_iff Option.some.inj Option.bind_eq_some_iff.1

theorem mapM_eq_ok_iff {α β ε : Type} {f : α → Except ε β} {as : List α} {bs : List β} :
    as.mapM f = .ok bs ↔ List.Forall₂ (fun a b => f a = .ok b) as bs := by
  refine mapM_eq_pure_iff Except.ok.inj ?_
  intro γ δ x g d h
  cases x with
  | error e => cases h
  | ok c => exact ⟨c, rfl, h⟩

end Tunebook
