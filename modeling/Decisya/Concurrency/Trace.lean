import Decisya.Concurrency.Program

/-!
# Traces of sequential code

A run of the code is the list of its operations with the replies to them, whatever the replies are.
It may break off before any operation. An operation can be judged by what was done before it, and
then the code is safe if every operation of every run is allowed where it stands.
-/

namespace Concurrency

set_option autoImplicit false

variable {Op : Type} {Res : Op → Type} {E α β : Type}

/-- An operation and the reply to it. -/
abbrev Event (Op : Type) (Res : Op → Type) := (o : Op) × Res o

/-- The code does the operations of the trace and ends so; `none` where it is broken off. -/
inductive Runs : Prog Op Res E α → List (Event Op Res) → Option (Except E α) → Prop where
  | ret (a : α) : Runs (.ret a) [] (some (.ok a))
  | raise (e : E) : Runs (.raise e) [] (some (.error e))
  | broken (o : Op) (k : Res o → Prog Op Res E α) : Runs (.call o k) [] none
  | call {o : Op} {k : Res o → Prog Op Res E α} {t : List (Event Op Res)} {x : Option (Except E α)}
      (r : Res o) (h : Runs (k r) t x) : Runs (.call o k) (⟨o, r⟩ :: t) x

section Inversion
variable {t : List (Event Op Res)} {x : Option (Except E α)} {y : Except E α}

theorem runs_ret {a : α} : Runs (.ret a) t x ↔ t = [] ∧ x = some (.ok a) := by
  constructor
  · intro h
    cases h
    exact ⟨rfl, rfl⟩
  · rintro ⟨rfl, rfl⟩
    exact .ret a

theorem runs_raise {e : E} : Runs (.raise e : Prog Op Res E α) t x ↔ t = [] ∧ x = some (.error e) := by
  constructor
  · intro h
    cases h
    exact ⟨rfl, rfl⟩
  · rintro ⟨rfl, rfl⟩
    exact .raise e

/-- A run that is not broken off has a reply to the first operation. -/
theorem runs_call {o : Op} {k : Res o → Prog Op Res E α} :
    Runs (.call o k) t (some y) ↔ ∃ r t', t = ⟨o, r⟩ :: t' ∧ Runs (k r) t' (some y) := by
  constructor
  · intro h
    cases h with
    | call r h => exact ⟨r, _, rfl, h⟩
  · rintro ⟨r, t', rfl, h⟩
    exact .call r h

theorem runs_ofExcept {z : Except E α} : Runs (Prog.ofExcept z : Prog Op Res E α) t x ↔
    t = [] ∧ x = some z := by
  cases z with
  | ok a => exact runs_ret
  | error e => exact runs_raise

theorem runs_perform {o : Op} {z : Except E (Res o)} :
    Runs (Prog.perform o) t (some z) ↔ ∃ r, t = [⟨o, r⟩] ∧ z = .ok r := by
  unfold Prog.perform
  rw [runs_call]
  constructor
  · rintro ⟨r, t', rfl, h⟩
    obtain ⟨rfl, hz⟩ := runs_ret.mp h
    exact ⟨r, rfl, Option.some.inj hz⟩
  · rintro ⟨r, rfl, rfl⟩
    exact ⟨r, [], rfl, .ret r⟩

/-- A run of two parts, of which the first may end the run. -/
theorem runs_bind {p : Prog Op Res E α} {f : α → Prog Op Res E β} {x : Option (Except E β)} :
    Runs (p.bind f) t x ↔
      (∃ t₁ t₂ a, t = t₁ ++ t₂ ∧ Runs p t₁ (some (.ok a)) ∧ Runs (f a) t₂ x) ∨
        (∃ e, Runs p t (some (.error e)) ∧ x = some (.error e)) ∨ Runs p t none ∧ x = none := by
  induction p generalizing t with
  | ret a =>
    rw [Prog.ret_bind]
    constructor
    · intro h
      exact .inl ⟨[], t, a, rfl, .ret a, h⟩
    · rintro (⟨t₁, t₂, b, rfl, hp, hf⟩ | ⟨e, hp, -⟩ | ⟨hp, -⟩)
      · obtain ⟨rfl, hb⟩ := runs_ret.mp hp
        cases hb
        exact hf
      · cases hp
      · cases hp
  | raise e =>
    rw [Prog.raise_bind, runs_raise]
    constructor
    · rintro ⟨rfl, rfl⟩
      exact .inr (.inl ⟨e, .raise e, rfl⟩)
    · rintro (⟨t₁, t₂, b, rfl, hp, hf⟩ | ⟨e', hp, rfl⟩ | ⟨hp, -⟩)
      · cases hp
      · obtain ⟨rfl, he⟩ := runs_raise.mp hp
        cases he
        exact ⟨rfl, rfl⟩
      · cases hp
  | call o k ih =>
    rw [Prog.call_bind]
    constructor
    · intro h
      cases h with
      | broken => exact .inr (.inr ⟨.broken o k, rfl⟩)
      | call r h =>
        rcases (ih r).mp h with ⟨t₁, t₂, a, rfl, hp, hf⟩ | ⟨e, hp, rfl⟩ | ⟨hp, rfl⟩
        · exact .inl ⟨_ :: t₁, t₂, a, rfl, .call r hp, hf⟩
        · exact .inr (.inl ⟨e, .call r hp, rfl⟩)
        · exact .inr (.inr ⟨.call r hp, rfl⟩)
    · rintro (⟨t₁, t₂, a, rfl, hp, hf⟩ | ⟨e, hp, rfl⟩ | ⟨hp, rfl⟩)
      · obtain ⟨r, t', rfl, hk⟩ := runs_call.mp hp
        exact .call r ((ih r).mpr (.inl ⟨t', t₂, a, rfl, hk, hf⟩))
      · obtain ⟨r, t', rfl, hk⟩ := runs_call.mp hp
        exact .call r ((ih r).mpr (.inr (.inl ⟨e, hk, rfl⟩)))
      · cases hp with
        | broken => exact .broken o _
        | call r hk => exact .call r ((ih r).mpr (.inr (.inr ⟨hk, rfl⟩)))

theorem runs_perform_bind {o : Op} {f : Res o → Prog Op Res E α} :
    Runs ((Prog.perform o).bind f) t (some y) ↔ ∃ r t', t = ⟨o, r⟩ :: t' ∧ Runs (f r) t' (some y) := runs_call

theorem runs_bind_ok {p : Prog Op Res E α} {f : α → Prog Op Res E β} {b : β} :
    Runs (p.bind f) t (some (.ok b)) ↔
      ∃ t₁ t₂ a, t = t₁ ++ t₂ ∧ Runs p t₁ (some (.ok a)) ∧ Runs (f a) t₂ (some (.ok b)) := by
  rw [runs_bind]
  constructor
  · rintro (h | ⟨e, -, h⟩ | ⟨-, h⟩)
    · exact h
    · cases h
    · cases h
  · exact .inl

theorem runs_attempt {E' : Type} {p : Prog Op Res E α} {z : Except E' (Except E α)} :
    Runs (p.attempt : Prog Op Res E' (Except E α)) t (some z) ↔ ∃ y, Runs p t (some y) ∧ z = .ok y := by
  induction p generalizing t with
  | ret a =>
    unfold Prog.attempt
    rw [runs_ret]
    constructor
    · rintro ⟨rfl, hz⟩
      cases hz
      exact ⟨.ok a, .ret a, rfl⟩
    · rintro ⟨y, hy, rfl⟩
      obtain ⟨rfl, hy⟩ := runs_ret.mp hy
      cases hy
      exact ⟨rfl, rfl⟩
  | raise e =>
    unfold Prog.attempt
    rw [runs_ret]
    constructor
    · rintro ⟨rfl, hz⟩
      cases hz
      exact ⟨.error e, .raise e, rfl⟩
    · rintro ⟨y, hy, rfl⟩
      obtain ⟨rfl, hy⟩ := runs_raise.mp hy
      cases hy
      exact ⟨rfl, rfl⟩
  | call o k ih =>
    unfold Prog.attempt
    rw [runs_call]
    constructor
    · rintro ⟨r, t', rfl, h⟩
      obtain ⟨y, hy, rfl⟩ := (ih r).mp h
      exact ⟨y, .call r hy, rfl⟩
    · rintro ⟨y, hy, rfl⟩
      obtain ⟨r, t', rfl, h⟩ := runs_call.mp hy
      exact ⟨r, t', rfl, (ih r).mpr ⟨y, h, rfl⟩⟩

end Inversion

/-- Every operation of a run of `p` satisfies what `p` performs. -/
theorem Runs.of_performs {p : Prog Op Res E α} {φ : Op → Prop} {ψ : α → Prop}
    (hp : p.Performs φ ψ) {t : List (Event Op Res)} {x : Option (Except E α)} (h : Runs p t x) :
    (∀ e ∈ t, φ e.1) ∧ ∀ a, x = some (.ok a) → ψ a := by
  induction h with
  | ret a =>
    refine ⟨by simp, fun b hb => ?_⟩
    cases hb
    exact hp
  | raise e => exact ⟨by simp, fun a ha => by cases ha⟩
  | broken o k => exact ⟨by simp, fun a ha => by cases ha⟩
  | call r h ih =>
    obtain ⟨hall, hpost⟩ := ih (hp.2 r)
    refine ⟨fun e he => ?_, hpost⟩
    rcases List.mem_cons.mp he with rfl | he
    · exact hp.1
    · exact hall e he

/-! ## Operations judged by the past -/

section Judged
variable {ok : List (Event Op Res) → Op → Prop} {past : List (Event Op Res)}

/-- Each operation of the trace is allowed after what came before it. -/
def Guarded (ok : List (Event Op Res) → Op → Prop) (past t : List (Event Op Res)) : Prop :=
  ∀ before o r after, t = before ++ ⟨o, r⟩ :: after → ok (past ++ before) o

theorem guarded_nil : Guarded ok past [] := by
  intro before o r after h
  cases before <;> cases h

theorem guarded_cons {o : Op} {r : Res o} {t : List (Event Op Res)} :
    Guarded ok past (⟨o, r⟩ :: t) ↔ ok past o ∧ Guarded ok (past ++ [⟨o, r⟩]) t := by
  constructor
  · intro h
    refine ⟨?_, fun before o' r' after heq => ?_⟩
    · have hfirst := h [] o r t rfl
      rwa [List.append_nil] at hfirst
    · have hrest := h (⟨o, r⟩ :: before) o' r' after (by rw [heq]; rfl)
      rwa [List.append_assoc]
  · rintro ⟨hfirst, hrest⟩ before o' r' after heq
    cases before with
    | nil =>
      cases heq
      rwa [List.append_nil]
    | cons e before =>
      rw [List.cons_append, List.cons.injEq] at heq
      obtain ⟨rfl, heq⟩ := heq
      have h := hrest before o' r' after heq
      rwa [List.append_assoc] at h

theorem guarded_append {s t : List (Event Op Res)} :
    Guarded ok past (s ++ t) ↔ Guarded ok past s ∧ Guarded ok (past ++ s) t := by
  induction s generalizing past with
  | nil =>
    rw [List.nil_append, List.append_nil]
    exact ⟨fun h => ⟨guarded_nil, h⟩, fun h => h.2⟩
  | cons e s ih => rw [List.cons_append, guarded_cons, guarded_cons, ih, and_assoc, List.append_assoc]; rfl

theorem guarded_of_forall {t : List (Event Op Res)} (h : ∀ e ∈ t, ∀ past, ok past e.1) :
    Guarded ok past t := by
  intro before o r after heq
  apply h ⟨o, r⟩
  rw [heq]
  exact List.mem_append_right _ List.mem_cons_self

/-- Every run of the code after `past` is allowed, and one that ends leaves `Q`. -/
def Safe (ok : List (Event Op Res) → Op → Prop) (past : List (Event Op Res)) (p : Prog Op Res E α)
    (Q : List (Event Op Res) → Except E α → Prop) : Prop :=
  ∀ t x, Runs p t x → Guarded ok past t ∧ ∀ y, x = some y → Q (past ++ t) y

variable {Q : List (Event Op Res) → Except E α → Prop}

theorem Safe.ret {a : α} (h : Q past (.ok a)) : Safe ok past (.ret a : Prog Op Res E α) Q := by
  intro t x hrun
  obtain ⟨rfl, rfl⟩ := runs_ret.mp hrun
  refine ⟨guarded_nil, fun y hy => ?_⟩
  cases hy
  rwa [List.append_nil]

theorem Safe.raise {e : E} (h : Q past (.error e)) : Safe ok past (.raise e : Prog Op Res E α) Q := by
  intro t x hrun
  obtain ⟨rfl, rfl⟩ := runs_raise.mp hrun
  refine ⟨guarded_nil, fun y hy => ?_⟩
  cases hy
  rwa [List.append_nil]

theorem Safe.call {o : Op} {k : Res o → Prog Op Res E α} (ho : ok past o)
    (hk : ∀ r, Safe ok (past ++ [⟨o, r⟩]) (k r) Q) : Safe ok past (.call o k) Q := by
  intro t x hrun
  cases hrun with
  | broken => exact ⟨guarded_nil, fun y hy => by cases hy⟩
  | call r h =>
    obtain ⟨hguarded, hpost⟩ := hk r _ _ h
    refine ⟨guarded_cons.mpr ⟨ho, hguarded⟩, fun y hy => ?_⟩
    have hq := hpost y hy
    rwa [List.append_assoc] at hq

/-- What the first part has done is known to the second part by its run. -/
theorem Safe.bind {p : Prog Op Res E β} {f : β → Prog Op Res E α}
    (hp : Safe ok past p fun _ _ => True)
    (hf : ∀ t a, Runs p t (some (.ok a)) → Safe ok (past ++ t) (f a) Q)
    (he : ∀ t e, Runs p t (some (.error e)) → Q (past ++ t) (.error e)) :
    Safe ok past (p.bind f) Q := by
  intro t x hrun
  rcases runs_bind.mp hrun with ⟨t₁, t₂, a, rfl, hfirst, hsecond⟩ | ⟨e, hfirst, rfl⟩ | ⟨hfirst, rfl⟩
  · obtain ⟨hguarded, hpost⟩ := hf t₁ a hfirst t₂ x hsecond
    refine ⟨guarded_append.mpr ⟨(hp t₁ _ hfirst).1, hguarded⟩, fun y hy => ?_⟩
    have hq := hpost y hy
    rwa [List.append_assoc] at hq
  · refine ⟨(hp t _ hfirst).1, fun y hy => ?_⟩
    cases hy
    exact he t e hfirst
  · exact ⟨(hp t _ hfirst).1, fun y hy => by cases hy⟩

/-- Code that only performs what is always allowed. -/
theorem Safe.of_performs {p : Prog Op Res E α} {φ : Op → Prop} {ψ : α → Prop} (hp : p.Performs φ ψ)
    (hφ : ∀ o, φ o → ∀ past, ok past o) : Safe ok past p fun _ _ => True :=
  fun _ _ hrun => ⟨guarded_of_forall fun e he => hφ e.1 ((Runs.of_performs hp hrun).1 e he),
    fun _ _ => trivial⟩

/-- What is allowed may be widened. -/
theorem Safe.imp {p : Prog Op Res E α} {ok' : List (Event Op Res) → Op → Prop} (h : Safe ok past p Q)
    (hok : ∀ past o, ok past o → ok' past o) : Safe ok' past p Q := by
  intro t x hrun
  obtain ⟨hguarded, hpost⟩ := h t x hrun
  exact ⟨fun before o r after heq => hok _ o (hguarded before o r after heq), hpost⟩

theorem Safe.mono {p : Prog Op Res E α} {Q' : List (Event Op Res) → Except E α → Prop}
    (h : Safe ok past p Q) (hQ : ∀ t y, Q t y → Q' t y) : Safe ok past p Q' := by
  intro t x hrun
  obtain ⟨hguarded, hpost⟩ := h t x hrun
  exact ⟨hguarded, fun y hy => hQ _ y (hpost y hy)⟩

end Judged

end Concurrency
