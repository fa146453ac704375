import Mathlib

/-!
# Escapes in several rounds

An escape is a sign and two digits. A round of encoding escapes any elements of a text, the
signs and digits of earlier rounds among them, so that a text may be encoded to different depths
at different places. One pass of decoding takes at least one round off everywhere: no escape of
one place ever reaches into another.
-/

namespace Text.Escapes

set_option autoImplicit false

variable {α : Type} (sign : α) (decode : α → α → Option α)

/-- One pass from left to right. What it writes is not looked at again. -/
def unescape [DecidableEq α] : List α → List α
  | c :: high :: low :: rest =>
    if c = sign then
      match decode high low with
      | some d => d :: unescape rest
      | none => c :: unescape (high :: low :: rest)
    else c :: unescape (high :: low :: rest)
  | s => s

/-- One round of encoding, at any places. -/
inductive Encodes : List α → List α → Prop where
  | nil : Encodes [] []
  | keep (c : α) {s t : List α} (h : Encodes s t) : Encodes (c :: s) (c :: t)
  | escape {c high low : α} (hc : decode high low = some c) {s t : List α} (h : Encodes s t) :
    Encodes (c :: s) (sign :: high :: low :: t)

inductive EncodedIn : ℕ → List α → List α → Prop where
  | zero (s : List α) : EncodedIn 0 s s
  | succ {n : ℕ} {s t u : List α} (h : EncodedIn n s t) (hround : Encodes sign decode t u) :
    EncodedIn (n + 1) s u

/-- What `c` may have become in `d` rounds. -/
inductive Rep : ℕ → α → List α → Prop where
  | leaf (d : ℕ) (c : α) : Rep d c [c]
  | escape {d : ℕ} {c high low : α} (hc : decode high low = some c) {a b e : List α}
    (ha : Rep d sign a) (hb : Rep d high b) (he : Rep d low e) : Rep (d + 1) c (a ++ (b ++ e))

inductive Reps (d : ℕ) : List α → List α → Prop where
  | nil : Reps d [] []
  | cons {c : α} {p s t : List α} (hc : Rep sign decode d c s) (h : Reps d p t) :
    Reps d (c :: p) (s ++ t)

variable {sign decode}

/-! ## Encoding -/

theorem Encodes.refl (s : List α) : Encodes sign decode s s := by
  induction s with
  | nil => exact .nil
  | cons c s ih => exact .keep c ih

theorem Encodes.of_append {a b s : List α} (h : Encodes sign decode (a ++ b) s) :
    ∃ a' b', s = a' ++ b' ∧ Encodes sign decode a a' ∧ Encodes sign decode b b' := by
  induction a generalizing s with
  | nil => exact ⟨[], s, rfl, .nil, h⟩
  | cons c a ih =>
    cases h with
    | keep _ h =>
      obtain ⟨a', b', rfl, ha, hb⟩ := ih h
      exact ⟨c :: a', b', rfl, .keep c ha, hb⟩
    | escape hc h =>
      obtain ⟨a', b', rfl, ha, hb⟩ := ih h
      exact ⟨_, b', rfl, .escape hc ha, hb⟩

theorem Rep.encodes {d : ℕ} {c : α} {s t : List α} (h : Rep sign decode d c s)
    (hround : Encodes sign decode s t) : Rep sign decode (d + 1) c t := by
  induction h generalizing t with
  | leaf d c =>
    cases hround with
    | keep _ h =>
      cases h
      exact .leaf _ c
    | escape hc h =>
      cases h
      exact .escape hc (.leaf d sign) (.leaf d _) (.leaf d _)
  | escape hc _ _ _ iha ihb ihe =>
    obtain ⟨a', rest, rfl, ha, hrest⟩ := hround.of_append
    obtain ⟨b', e', rfl, hb, he⟩ := hrest.of_append
    exact .escape hc (iha ha) (ihb hb) (ihe he)

theorem Reps.encodes {d : ℕ} {p s t : List α} (h : Reps sign decode d p s)
    (hround : Encodes sign decode s t) : Reps sign decode (d + 1) p t := by
  induction h generalizing t with
  | nil =>
    cases hround
    exact .nil
  | cons hc _ ih =>
    obtain ⟨s', t', rfl, hs, ht⟩ := hround.of_append
    exact .cons (hc.encodes hs) (ih ht)

theorem Reps.refl (p : List α) : Reps sign decode 0 p p := by
  induction p with
  | nil => exact .nil
  | cons c p ih => exact Reps.cons (s := [c]) (.leaf 0 c) ih

theorem EncodedIn.reps {n : ℕ} {p q : List α} (h : EncodedIn sign decode n p q) :
    Reps sign decode n p q := by
  induction h with
  | zero s => exact Reps.refl s
  | succ _ hround ih => exact ih.encodes hround

/-! ## Decoding -/

section Decode

variable [DecidableEq α]

theorem unescape_cons {c : α} (hc : c ≠ sign) (s : List α) :
    unescape sign decode (c :: s) = c :: unescape sign decode s := by
  match s with
  | [] => rfl
  | [_] => rfl
  | _ :: _ :: _ => rw [unescape, if_neg hc]

theorem unescape_escape {c high low : α} (h : decode high low = some c) (s : List α) :
    unescape sign decode (sign :: high :: low :: s) = c :: unescape sign decode s := by
  rw [unescape, if_pos rfl, h]

theorem unescape_sign {high low : α} (h : decode high low = none) (s : List α) :
    unescape sign decode (sign :: high :: low :: s)
      = sign :: unescape sign decode (high :: low :: s) := by
  rw [unescape, if_pos rfl, h]

variable {d : ℕ} {c : α} {s : List α}

omit [DecidableEq α] in
theorem Rep.length_pos (h : Rep sign decode d c s) : 0 < s.length := by
  induction h with
  | leaf d c => exact Nat.one_pos
  | escape hc ha hb he iha ihb ihe =>
    rw [List.length_append]
    omega

omit [DecidableEq α] in
/-- What was encoded starts with the sign. -/
theorem Rep.starts (h : Rep sign decode d c s) :
    s = [c] ∨ ∃ x rest, s = sign :: x :: rest := by
  induction h with
  | leaf d c => exact Or.inl rfl
  | @escape d c high low hc a b e ha hb he iha ihb ihe =>
    right
    rcases iha with rfl | ⟨x, rest, rfl⟩
    · rcases ihb with rfl | ⟨y, rest, rfl⟩
      · exact ⟨high, e, rfl⟩
      · exact ⟨sign, y :: rest ++ e, rfl⟩
    · exact ⟨x, rest ++ (b ++ e), rfl⟩

variable (hdigits : ∀ high low c, decode high low = some c → high ≠ sign ∧ low ≠ sign)
include hdigits

/-- A pass keeps a sign that an encoded place follows, at once or after one more element. -/
theorem unescape_sign_of_starts {x : α} {rest : List α} (t : List α)
    (hstart : s = sign :: x :: rest) :
    unescape sign decode (sign :: (s ++ t)) = sign :: unescape sign decode (s ++ t) ∧
      ∀ y, y ≠ sign → unescape sign decode (sign :: y :: (s ++ t))
        = sign :: y :: unescape sign decode (s ++ t) := by
  have hnone : ∀ u v, (u = sign ∨ v = sign) → decode u v = none := by
    intro u v heq
    cases hv : decode u v with
    | none => rfl
    | some w =>
      obtain ⟨hu, hv⟩ := hdigits u v w hv
      rcases heq with heq | heq
      · exact absurd heq hu
      · exact absurd heq hv
  subst hstart
  constructor
  · exact unescape_sign (hnone sign x (Or.inl rfl)) (rest ++ t)
  · intro y hy
    rw [List.cons_append, unescape_sign (hnone y sign (Or.inr rfl)), unescape_cons hy]

/-- A pass turns what was encoded into something encoded less deep, whatever comes after. -/
theorem unescape_rep (h : Rep sign decode d c s) :
    s = [c] ∨ ∃ d' s', d = d' + 1 ∧ Rep sign decode d' c s' ∧ s'.length < s.length ∧
      ∀ t, unescape sign decode (s ++ t) = s' ++ unescape sign decode t := by
  induction h with
  | leaf d c => exact Or.inl rfl
  | @escape d c high low hc a b e ha hb he iha ihb ihe =>
    right
    obtain ⟨hhigh, hlow⟩ := hdigits high low c hc
    -- a digit passes whether or not it was encoded, as it is not the sign
    have hdigit : ∀ {x : α} {u : List α}, x ≠ sign → (u = [x] ∨ ∃ d' s', d = d' + 1 ∧
        Rep sign decode d' x s' ∧ s'.length < u.length ∧
          ∀ t, unescape sign decode (u ++ t) = s' ++ unescape sign decode t) →
        ∃ s', (u = [x] ∧ s' = [x] ∨ s'.length < u.length ∧ ∃ d', d = d' + 1) ∧
          (∀ d', d = d' + 1 → Rep sign decode d' x s') ∧
          ∀ t, unescape sign decode (u ++ t) = s' ++ unescape sign decode t := by
      intro x u hx hu
      rcases hu with rfl | ⟨d', s', rfl, hrep, hlt, hpass⟩
      · exact ⟨[x], Or.inl ⟨rfl, rfl⟩, fun d' _ => .leaf d' x, fun t => unescape_cons hx t⟩
      · refine ⟨s', Or.inr ⟨hlt, d', rfl⟩, fun d'' heq => ?_, hpass⟩
        cases heq
        exact hrep
    obtain ⟨b', hsizeb, hrepb, hpassb⟩ := hdigit hhigh ihb
    obtain ⟨e', hsizee, hrepe, hpasse⟩ := hdigit hlow ihe
    have hleb : b'.length ≤ b.length := by
      rcases hsizeb with ⟨rfl, rfl⟩ | ⟨hlt, -⟩
      · exact Nat.le_refl _
      · exact hlt.le
    have hlee : e'.length ≤ e.length := by
      rcases hsizee with ⟨rfl, rfl⟩ | ⟨hlt, -⟩
      · exact Nat.le_refl _
      · exact hlt.le
    rcases iha with rfl | ⟨d', a', rfl, hrepa, hlta, hpassa⟩
    · rcases hsizeb with ⟨rfl, rfl⟩ | ⟨hltb, d', rfl⟩
      · rcases hsizee with ⟨rfl, rfl⟩ | ⟨hlte, d', rfl⟩
        · -- an escape with nothing encoded in it
          refine ⟨d, [c], rfl, .leaf d c, ?_, fun t => unescape_escape hc t⟩
          simp only [List.length_append, List.length_singleton]
          omega
        · rcases he.starts with rfl | ⟨x, rest, hstart⟩
          · have hpos := (hrepe d' rfl).length_pos
            simp only [List.length_singleton] at hlte
            omega
          · refine ⟨d' + 1, [sign] ++ ([high] ++ e'), rfl,
              .escape hc (.leaf d' sign) (.leaf d' high) (hrepe d' rfl), ?_, ?_⟩
            · simp only [List.length_append]
              omega
            · intro t
              have hkeep := (unescape_sign_of_starts hdigits t hstart).2 high hhigh
              rw [hpasse t] at hkeep
              exact hkeep
      · rcases hb.starts with rfl | ⟨x, rest, hstart⟩
        · have hpos := (hrepb d' rfl).length_pos
          simp only [List.length_singleton] at hltb
          omega
        · refine ⟨d' + 1, [sign] ++ (b' ++ e'), rfl,
            .escape hc (.leaf d' sign) (hrepb d' rfl) (hrepe d' rfl), ?_, ?_⟩
          · simp only [List.length_append]
            omega
          · intro t
            have hkeep := (unescape_sign_of_starts hdigits (e ++ t) hstart).1
            rw [hpassb, hpasse, ← List.append_assoc b e t] at hkeep
            rw [List.append_assoc [sign], List.append_assoc [sign], List.append_assoc b']
            exact hkeep
    · refine ⟨d' + 1, a' ++ (b' ++ e'), rfl,
        .escape hc hrepa (hrepb d' rfl) (hrepe d' rfl), ?_, ?_⟩
      · simp only [List.length_append]
        omega
      · intro t
        rw [List.append_assoc, List.append_assoc, hpassa, hpassb, hpasse, List.append_assoc,
          List.append_assoc]

/-- A pass over a text without signs of its own: the text itself, or one nearer to it. -/
theorem unescape_reps {p q : List α} (hp : sign ∉ p) (h : Reps sign decode d p q) :
    Reps sign decode (d - 1) p (unescape sign decode q) ∧
      (q = p ∨ (unescape sign decode q).length < q.length) ∧
      (unescape sign decode q).length ≤ q.length := by
  induction h with
  | nil => exact ⟨.nil, Or.inl rfl, Nat.le_refl _⟩
  | @cons c p s t hc _ ih =>
    rw [List.mem_cons, not_or] at hp
    obtain ⟨hreps, hcase, hle⟩ := ih hp.2
    rcases unescape_rep hdigits hc with rfl | ⟨d', s', rfl, hrep, hlt, hpass⟩
    · have hstep : unescape sign decode ([c] ++ t) = [c] ++ unescape sign decode t :=
        unescape_cons (Ne.symm hp.1) t
      rw [hstep]
      refine ⟨.cons (.leaf _ c) hreps, ?_, Nat.succ_le_succ hle⟩
      rcases hcase with rfl | hlt
      · exact Or.inl rfl
      · exact Or.inr (Nat.succ_lt_succ hlt)
    · rw [hpass t]
      refine ⟨.cons hrep hreps, Or.inr ?_, ?_⟩
      · simp only [List.length_append]
        omega
      · simp only [List.length_append]
        omega

omit hdigits [DecidableEq α] in
theorem Reps.eq_of_zero {p q : List α} (h : Reps sign decode 0 p q) : q = p := by
  generalize hd : 0 = d at h
  induction h with
  | nil => rfl
  | cons hc _ ih =>
    cases hc with
    | leaf => rw [ih, List.singleton_append]
    | escape => omega

end Decode

end Text.Escapes
