import Decisya.Text.Overlap
import Decisya.Text.Utf16

/-!
# Token shapes

The two regular expressions of the masking core, and how their matches lie to each other: a
text too short for a JWT has one dot at most, only the first letter of `bearer` starts a match,
and the mask stops either.
-/

namespace Decisya.Logging

open Text Text.Scan Text.Pattern

set_option autoImplicit false

def isUpperUnit (c : UInt16) : Bool := 0x41 ≤ c && c ≤ 0x5A

def isLowerUnit (c : UInt16) : Bool := 0x61 ≤ c && c ≤ 0x7A

def isDigitUnit (c : UInt16) : Bool := 0x30 ≤ c && c ≤ 0x39

/-- `[A-Za-z0-9_-]`. -/
def isBase64UrlUnit (c : UInt16) : Bool :=
  isUpperUnit c || isLowerUnit c || isDigitUnit c || c == 0x5F || c == 0x2D

/-- `[A-Za-z0-9\-._~+/]` without regard to case, which lets the Kelvin sign in for `k`. -/
def isTokenUnit (c : UInt16) : Bool :=
  isUpperUnit c || isLowerUnit c || isDigitUnit c || c == 0x2D || c == 0x2E || c == 0x5F ||
    c == 0x7E || c == 0x2B || c == 0x2F || c == 0x212A

/-- An ASCII letter of either case, given in lower case. -/
def isLetter (letter c : UInt16) : Bool := c == letter || c == letter - 0x20

inductive JwtPart where
  | lead
  | body
  | dot
  deriving DecidableEq

inductive BearerPart where
  | lead
  | word
  | token
  deriving DecidableEq

/-- `eyJ[A-Za-z0-9_-]{8,}\.[A-Za-z0-9_-]{8,}` -/
def jwtHead : List (Item UInt16 JwtPart) :=
  [.one (· == 0x65) .lead, .one (· == 0x79) .lead, .one (· == 0x4A) .lead,
    .many isBase64UrlUnit 8 .body, .one (· == 0x2E) .dot, .many isBase64UrlUnit 8 .body]

/-- `eyJ[A-Za-z0-9_-]{8,}\.[A-Za-z0-9_-]{8,}\.[A-Za-z0-9_-]*` -/
def jwtShape : List (Item UInt16 JwtPart) :=
  jwtHead ++ [.one (· == 0x2E) .dot, .many isBase64UrlUnit 0 .body]

/-- `earer\s+` -/
def bearerTail : List (Item UInt16 BearerPart) :=
  [.one (isLetter 0x65) .lead, .one (isLetter 0x61) .lead, .one (isLetter 0x72) .word,
    .one (isLetter 0x65) .word, .one (isLetter 0x72) .word, .many isWhiteSpaceUnit 1 .word]

/-- `bearer\s+[A-Za-z0-9\-._~+/]+=*` -/
def bearerShape : List (Item UInt16 BearerPart) :=
  .one (isLetter 0x62) .lead ::
    (bearerTail ++ [.many isTokenUnit 1 .token, .many (· == 0x3D) 0 .token])

def jwtAt : Utf16 → Option (List JwtPart) := matchAt jwtShape

def bearerAt : Utf16 → Option (List BearerPart) := matchAt bearerShape

def mask : Utf16 := ascii "***"

def isLoose : BearerPart → Bool
  | .token => false
  | _ => true

/-! ## The shapes never give anything back -/

theorem not_dot_of_isBase64UrlUnit {c : UInt16} (hc : isBase64UrlUnit c = true) :
    (c == 0x2E) = false := by
  cases hdot : c == 0x2E with
  | false => rfl
  | true =>
    have heq : c = 0x2E := beq_iff_eq.mp hdot
    rw [heq] at hc
    cases hc

theorem not_isTokenUnit_of_white {c : UInt16} (hc : isWhiteSpaceUnit c = true) :
    isTokenUnit c = false := by
  unfold isWhiteSpaceUnit at hc
  unfold isTokenUnit isUpperUnit isLowerUnit isDigitUnit
  simp only [Bool.or_eq_true, Bool.and_eq_true, decide_eq_true_eq, beq_iff_eq, Bool.or_eq_false_iff,
    Bool.and_eq_false_iff, decide_eq_false_iff_not, beq_eq_false_iff_ne, ne_eq,
    ← UInt16.toNat_inj, UInt16.le_iff_toNat_le, UInt16.reduceToNat] at hc ⊢
  omega

theorem matchAt_never_none {test : UInt16 → Bool} {L : Type} (label : L) (s : Utf16) :
    matchAt [.many test 0 label] s ≠ none := by
  rw [matchAt, Nat.sub_zero, List.range_succ_eq_map, List.findSome?_cons]
  exact Option.some_ne_none _

theorem greedy_never_none {test : UInt16 → Bool} {L : Type} (label : L) (s : Utf16) :
    greedy [.many test 0 label] s ≠ none := by
  rw [greedy, if_pos (Nat.zero_le _)]
  exact Option.some_ne_none _

theorem determinate_jwtShape : Determinate jwtShape := by
  have hdot : ∀ {items : List (Item UInt16 JwtPart)} (c : UInt16) (s : Utf16),
      isBase64UrlUnit c = true → matchAt (.one (· == 0x2E) .dot :: items) (c :: s) = none := by
    intro items c s hc
    rw [matchAt, if_neg (Bool.eq_false_iff.mp (not_dot_of_isBase64UrlUnit hc))]
  exact ⟨Or.inl hdot, Or.inl hdot, Or.inr fun _ => Option.some_ne_none _, trivial⟩

theorem determinate_bearerShape : Determinate bearerShape := by
  refine ⟨Or.inl ?_, Or.inr fun s => matchAt_never_none BearerPart.token s,
    Or.inr fun _ => Option.some_ne_none _, trivial⟩
  intro c s hc
  change matchAt [.many isTokenUnit 1 BearerPart.token, .many (· == 0x3D) 0 BearerPart.token]
    (c :: s) = none
  rw [matchAt, run_cons_neg (not_isTokenUnit_of_white hc)]
  rfl

/-! ## JWTs -/

theorem dot_iff {item : Item UInt16 JwtPart} (hitem : item ∈ jwtShape) {c : UInt16}
    (hc : item.test c = true) : item.label = .dot ↔ c = 0x2E := by
  have hbody : ∀ least, item = .many isBase64UrlUnit least .body →
      (item.label = .dot ↔ c = 0x2E) := by
    rintro least rfl
    have hne := not_dot_of_isBase64UrlUnit hc
    exact iff_of_false nofun (beq_eq_false_iff_ne.mp hne)
  have hone : ∀ (u : UInt16) (label : JwtPart), item = .one (· == u) label →
      (label = .dot ↔ u = 0x2E) → (item.label = .dot ↔ c = 0x2E) := by
    rintro u label rfl hu
    have heq : c = u := beq_iff_eq.mp hc
    rw [heq]
    exact hu
  simp only [jwtShape, jwtHead, List.cons_append, List.nil_append, List.mem_cons,
    List.not_mem_nil, or_false] at hitem
  rcases hitem with h | h | h | h | h | h | h | h
  · exact hone _ _ h (by decide)
  · exact hone _ _ h (by decide)
  · exact hone _ _ h (by decide)
  · exact hbody _ h
  · exact hone _ _ h (by decide)
  · exact hbody _ h
  · exact hone _ _ h (by decide)
  · exact hbody _ h

/-- What matched has as many dots as its labels say. -/
theorem count_dot_of_greedy {items : List (Item UInt16 JwtPart)} (hitems : items ⊆ jwtShape)
    {s : Utf16} {labels : List JwtPart} (h : greedy items s = some labels) :
    (s.take labels.length).count 0x2E = labels.count .dot := by
  have hforall := forall₂_of_greedy h
  generalize s.take labels.length = cs at hforall
  clear h
  induction hforall with
  | nil => rfl
  | cons hitem _ ih =>
    obtain ⟨item, hmem, rfl, hc⟩ := hitem
    have hdot := dot_iff (hitems hmem) hc
    rw [List.count_cons, List.count_cons, ih]
    congr 1
    simp only [beq_iff_eq, hdot]

theorem count_dot_jwtHead {s : Utf16} {labels : List JwtPart} (h : greedy jwtHead s = some labels) :
    labels.count .dot = 1 := by
  rw [count_of_greedy (by simp [jwtHead]) h]
  decide

theorem count_dot_jwtShape {s : Utf16} {labels : List JwtPart}
    (h : greedy jwtShape s = some labels) : labels.count .dot = 2 := by
  rw [count_of_greedy (by simp [jwtShape, jwtHead]) h]
  decide

theorem windowed_jwtAt : Windowed jwtAt fun _ => true := by
  change Windowed (matchAt (jwtHead ++ Item.one (· == 0x2E) JwtPart.dot ::
    [Item.many isBase64UrlUnit 0 JwtPart.body])) _
  refine windowed_matchAt determinate_jwtShape ⟨_, _, _, rfl⟩ (Nat.le_refl 1)
    (greedy_never_none JwtPart.body) (fun _ _ => rfl) ?_
  intro x z labels _ hhead hle y hy
  by_contra hne
  obtain ⟨labels', hlabels'⟩ := Option.ne_none_iff_exists'.mp hne
  have hshape : greedy jwtShape y = some labels' := by
    rw [← matchAt_eq_greedy determinate_jwtShape]
    exact hlabels'
  have htwo : 2 ≤ y.count 0x2E := by
    rw [← count_dot_jwtShape hshape, ← count_dot_of_greedy (List.Subset.refl _) hshape]
    exact (List.take_sublist _ y).count_le 0x2E
  have hone : x.count 0x2E ≤ 1 := by
    have hx : x = ((x ++ z).take labels.length).take x.length := by
      rw [List.take_take, Nat.min_eq_left hle, List.take_left]
    have hhead' : greedy jwtHead (x ++ z) = some labels := hhead
    have hcount := count_dot_of_greedy (List.subset_append_left _ _) hhead'
    rw [hx, ← count_dot_jwtHead hhead', ← hcount]
    exact (List.take_sublist _ _).count_le 0x2E
  have hle' := hy.sublist.count_le 0x2E
  omega

/-! ## Bearer tokens -/

theorem not_letter_b {c : UInt16} {item : Item UInt16 BearerPart} (hitem : item ∈ bearerTail)
    (hc : item.test c = true) : isLetter 0x62 c = false := by
  have hletter : ∀ (u : UInt16) (label : BearerPart), item = .one (isLetter u) label →
      isLetter 0x62 u = false → isLetter 0x62 (u - 0x20) = false → isLetter 0x62 c = false := by
    rintro u label rfl hlower hupper
    change (c == u || c == u - 0x20) = true at hc
    rw [Bool.or_eq_true, beq_iff_eq, beq_iff_eq] at hc
    rcases hc with rfl | rfl
    · exact hlower
    · exact hupper
  simp only [bearerTail, List.mem_cons, List.not_mem_nil, or_false] at hitem
  rcases hitem with h | h | h | h | h | h
  · exact hletter _ _ h (by decide) (by decide)
  · exact hletter _ _ h (by decide) (by decide)
  · exact hletter _ _ h (by decide) (by decide)
  · exact hletter _ _ h (by decide) (by decide)
  · exact hletter _ _ h (by decide) (by decide)
  · cases hb : isLetter 0x62 c with
    | false => rfl
    | true =>
      rw [h] at hc
      change isWhiteSpaceUnit c = true at hc
      rw [isLetter, Bool.or_eq_true, beq_iff_eq, beq_iff_eq] at hb
      rcases hb with rfl | rfl
      · exact absurd hc (by decide)
      · exact absurd hc (by decide)

theorem bearerAt_eq_none {c : UInt16} (hc : isLetter 0x62 c = false) (s : Utf16) :
    bearerAt (c :: s) = none := by
  rw [bearerAt, bearerShape, matchAt, if_neg (Bool.eq_false_iff.mp hc)]

theorem greedy_bearerShape {c : UInt16} {s : Utf16} {labels : List BearerPart}
    (h : bearerAt (c :: s) = some labels) :
    ∃ rest, labels = .lead :: rest ∧
      greedy (bearerTail ++ [.many isTokenUnit 1 .token, .many (· == 0x3D) 0 .token]) s
        = some rest := by
  rw [bearerAt, matchAt_eq_greedy determinate_bearerShape, bearerShape, greedy] at h
  split at h
  · obtain ⟨rest, hrest, rfl⟩ := Option.map_eq_some_iff.mp h
    exact ⟨rest, rfl, hrest⟩
  · cases h

/-- A text too short for a token holds no second start of a match. -/
theorem windowed_bearerAt : Windowed bearerAt isLoose := by
  change Windowed (matchAt ((.one (isLetter 0x62) .lead :: bearerTail) ++
    Item.many isTokenUnit 1 BearerPart.token :: [Item.many (· == 0x3D) 0 BearerPart.token])) _
  refine windowed_matchAt determinate_bearerShape ⟨_, _, _, rfl⟩ (Nat.le_refl 1)
    (greedy_never_none BearerPart.token) (by decide) ?_
  intro x z labels hnone hhead hle y hy
  obtain ⟨front, rfl⟩ := hy
  cases front with
  | nil => exact hnone
  | cons d front =>
    cases y with
    | nil => rfl
    | cons c y =>
      rw [List.cons_append, List.cons_append, greedy] at hhead
      split at hhead
      · obtain ⟨rest, hrest, rfl⟩ := Option.map_eq_some_iff.mp hhead
        simp only [List.length_append, List.length_cons] at hle
        obtain ⟨l, hl⟩ : ∃ l, rest[front.length]? = some l :=
          ⟨_, List.getElem?_eq_getElem (by omega)⟩
        obtain ⟨c', hc', item, hitem, -, htest⟩ := item_of_greedy hrest hl
        have hcc : c' = c := by
          rw [List.append_assoc, List.getElem?_append_right (Nat.le_refl _), Nat.sub_self,
            List.cons_append, List.getElem?_cons_zero] at hc'
          exact (Option.some.inj hc').symm
        rw [hcc] at htest
        exact bearerAt_eq_none (not_letter_b hitem htest) y
      · cases hhead

/-- After its first letter a match goes on without a start before the token. -/
theorem quiet_bearerAt {c : UInt16} {s : Utf16} {l : BearerPart} {rest : List BearerPart}
    (h : bearerAt (c :: s) = some (l :: rest)) : Overlap.Quiet bearerAt isLoose rest s := by
  obtain ⟨rest', heq, hrest⟩ := greedy_bearerShape h
  obtain ⟨rfl, rfl⟩ := List.cons.inj heq
  intro k l hl hloose t
  obtain ⟨d, hd, item, hitem, hlabel, htest⟩ := item_of_greedy hrest hl
  cases t with
  | zero =>
    rw [List.take_zero]
    rfl
  | succ t =>
    rw [List.drop_eq_getElem?_toList_append, hd, Option.toList_some, List.singleton_append,
      List.take_succ_cons]
    rcases List.mem_append.mp hitem with hitem | hitem
    · exact bearerAt_eq_none (not_letter_b hitem htest) _
    · simp only [List.mem_cons, List.not_mem_nil, or_false] at hitem
      rcases hitem with rfl | rfl
      · rw [← hlabel] at hloose
        cases hloose
      · rw [← hlabel] at hloose
        cases hloose

/-! ## The mask -/

theorem mask_eq : mask = List.replicate 3 0x2A := by decide

theorem mask_map_ne_nil {α : Type} (f : UInt16 → α) : mask.map f ≠ [] := by
  rw [mask_eq]
  exact List.cons_ne_nil _ _

theorem bearerAt_stop {m : UInt16} (hm : m ∈ mask) (x z : Utf16) :
    bearerAt (x ++ m :: z) = bearerAt x := by
  rw [bearerAt, matchAt_eq_greedy determinate_bearerShape, matchAt_eq_greedy determinate_bearerShape]
  apply greedy_stop
  have hstar : m = 0x2A := by
    rw [mask_eq] at hm
    exact List.eq_of_mem_replicate hm
  rw [hstar]
  intro item hitem
  simp only [bearerShape, bearerTail, List.cons_append, List.nil_append, List.mem_cons,
    List.not_mem_nil, or_false] at hitem
  rcases hitem with rfl | rfl | rfl | rfl | rfl | rfl | rfl | rfl | rfl <;> decide

/-- As many leading parts as the mask has characters. -/
def jwtLead : JwtPart → ℕ
  | .lead => 1
  | _ => 0

def bearerLead : BearerPart → ℕ
  | .lead => 1
  | _ => 0

theorem sum_jwtLead (labels : List JwtPart) :
    (labels.map jwtLead).sum = labels.count .lead := by
  induction labels with
  | nil => rfl
  | cons l labels ih =>
    rw [List.map_cons, List.sum_cons, List.count_cons, ih, Nat.add_comm]
    cases l <;> rfl

theorem sum_bearerLead (labels : List BearerPart) :
    (labels.map bearerLead).sum = labels.count .lead := by
  induction labels with
  | nil => rfl
  | cons l labels ih =>
    rw [List.map_cons, List.sum_cons, List.count_cons, ih, Nat.add_comm]
    cases l <;> rfl

theorem interplay : Overlap.Interplay jwtAt bearerAt isLoose jwtLead bearerLead 3 := by
  refine ⟨windowed_jwtAt, windowed_bearerAt, quiet_bearerAt, ?_, ?_, ?_⟩
  · intro s labels h
    rw [jwtAt, matchAt_eq_greedy determinate_jwtShape] at h
    rw [sum_jwtLead, count_of_greedy (by simp [jwtShape, jwtHead]) h]
    decide
  · intro s labels h
    rw [bearerAt, matchAt_eq_greedy determinate_bearerShape] at h
    rw [sum_bearerLead, count_of_greedy (by simp [bearerShape, bearerTail]) h]
    decide
  · intro l
    cases l with
    | lead => exact Nat.le_refl 1
    | word => exact Nat.zero_le 1
    | token => exact Nat.zero_le 1

end Decisya.Logging
