import Decisya.Concurrency.RelyGuarantee

/-!
# Code that runs alone

A system with one thread and no environment: nothing happens between two operations of the
code. The rules for triples apply with a protocol in which nobody else does anything.
-/

namespace Concurrency

set_option autoImplicit false

variable {Op : Type} {Res : Op → Type} {σ E α β : Type} {S : System Unit Op Res Empty σ}

/-- The code, run from `s`, ends with `x` in `s'`. -/
def Ends (S : System Unit Op Res Empty σ) (p : Prog Op Res E α) (s : σ) (x : Except E α) (s' : σ) :
    Prop :=
  ∃ c : Config Unit Op Res E α σ, S.Reach ⟨fun _ => p, s⟩ c ∧
    (c.threads ()).outcome? = some x ∧ c.shared = s'

namespace Ends
variable {s s₁ s' : σ}

theorem ret (a : α) (s : σ) : Ends S (.ret a : Prog Op Res E α) s (.ok a) s :=
  ⟨⟨fun _ => .ret a, s⟩, .refl _, rfl, rfl⟩

theorem update_unit (p q : Prog Op Res E α) :
    Function.update (fun _ : Unit => p) () q = fun _ => q := by
  funext u
  exact Function.update_self _ _ _

theorem call {o : Op} {k : Res o → Prog Op Res E α} {x : Except E α} (r : Res o)
    (hx : S.exec () o s r s₁) (h : Ends S (k r) s₁ x s') : Ends S (.call o k) s x s' := by
  obtain ⟨c, hreach, hend, hshared⟩ := h
  refine ⟨c, Relation.ReflTransGen.head ?_ hreach, hend, hshared⟩
  have hstep : S.Step (⟨fun _ => .call o k, s⟩ : Config Unit Op Res E α σ)
      ⟨Function.update (fun _ => .call o k) () (k r), s₁⟩ := .run () rfl r s₁ hx
  rwa [update_unit] at hstep

theorem of_ret {a : α} {x : Except E α} (h : Ends S (.ret a) s x s') : x = .ok a ∧ s' = s := by
  obtain ⟨c, hreach, hend, rfl⟩ := h
  rcases Relation.ReflTransGen.cases_head hreach with rfl | ⟨c₁, hstep, -⟩
  · exact ⟨(Option.some.inj hend).symm, rfl⟩
  · cases hstep with
    | run u hp r s₁ hx => cases hp
    | env e s₁ hx => exact e.elim

theorem of_raise {e : E} {x : Except E α} (h : Ends S (.raise e : Prog Op Res E α) s x s') :
    x = .error e ∧ s' = s := by
  obtain ⟨c, hreach, hend, rfl⟩ := h
  rcases Relation.ReflTransGen.cases_head hreach with rfl | ⟨c₁, hstep, -⟩
  · exact ⟨(Option.some.inj hend).symm, rfl⟩
  · cases hstep with
    | run u hp r s₁ hx => cases hp
    | env e s₁ hx => exact e.elim

theorem of_call {o : Op} {k : Res o → Prog Op Res E α} {x : Except E α}
    (h : Ends S (.call o k) s x s') : ∃ r s₁, S.exec () o s r s₁ ∧ Ends S (k r) s₁ x s' := by
  obtain ⟨c, hreach, hend, rfl⟩ := h
  rcases Relation.ReflTransGen.cases_head hreach with rfl | ⟨c₁, hstep, hrest⟩
  · cases hend
  · cases hstep with
    | run u hp r s₁ hx =>
      cases hp
      rw [update_unit] at hrest
      exact ⟨r, s₁, hx, c, hrest, hend, rfl⟩
    | env e s₁ hx => exact e.elim

theorem bind {p : Prog Op Res E α} {f : α → Prog Op Res E β} {a : α} {x : Except E β}
    (hp : Ends S p s (.ok a) s₁) (hf : Ends S (f a) s₁ x s') : Ends S (p.bind f) s x s' := by
  induction p generalizing s with
  | ret b =>
    obtain ⟨hb, rfl⟩ := hp.of_ret
    cases hb
    exact hf
  | raise e => cases hp.of_raise.1
  | call o k ih =>
    obtain ⟨r, s₂, hx, hrest⟩ := hp.of_call
    exact call r hx (ih r hrest)

end Ends

/-- Nobody else does anything, and every operation keeps `inv`. -/
def Protocol.sole (inv : σ → Prop) : Protocol Unit σ where
  inv := inv
  guar _ _ := True
  rely _ s s' := s' = s

namespace Protocol
variable {inv : σ → Prop}

theorem sole_stable (A : σ → Prop) : (sole inv).Stable () A := by
  intro s s' hs h
  obtain rfl := h
  exact hs

theorem sole_meanwhile {s s' : σ} (h : (sole inv).Meanwhile () s s') : s' = s := by
  induction h with
  | refl => rfl
  | tail _ hlast ih => exact Eq.trans hlast ih

theorem Triple.sole_call {o : Op} {k : Res o → Prog Op Res E α} {A : σ → Prop}
    {Q : Except E α → σ → Prop} (B : Res o → σ → Prop)
    (hop : ∀ s r s', inv s → A s → S.exec () o s r s' → inv s' ∧ B r s')
    (hk : ∀ r, (sole inv).Triple S () (B r) (k r) Q) :
    (sole inv).Triple S () A (.call o k) Q := by
  refine Triple.call B (sole_stable A) (fun s r s' hi hs hx => ?_) hk
  obtain ⟨hi', hB⟩ := hop s r s' hi hs hx
  exact ⟨⟨hi', trivial, fun u hu => absurd rfl hu⟩, hB⟩

/-- What a triple says of a run that ended. -/
theorem Triple.of_ends {p : Prog Op Res E α} {A : σ → Prop} {Q : Except E α → σ → Prop} {s s' : σ}
    {x : Except E α} (htriple : (sole inv).Triple S () A p Q) (h : Ends S p s x s') (hi : inv s)
    (hs : A s) : inv s' ∧ Q x s' := by
  obtain ⟨c, hreach, hx, rfl⟩ := h
  have hok : Ok (sole inv) S (fun _ => Q) (⟨fun _ => p, s⟩ : Config Unit Op Res E α σ) :=
    sound (A := fun _ => A) hi (fun _ => hs) fun _ => htriple
  have hend := (hok.reach (fun e => e.elim) hreach).1
  obtain ⟨s₁, hmeanwhile, hQ⟩ := hend.outcome hx
  refine ⟨hend.1, ?_⟩
  rwa [sole_meanwhile hmeanwhile]

end Protocol

end Concurrency
