import Decisya.Text.Pattern

/-!
# Matches from left to right

A scan marks every element of a text as free or as part of a match, and a replacement writes
a mask for each match. The matcher is a parameter: it gives the labels of what it matches at
the start of a text. A window is the start of a longer text. Its marks are those of the whole
but for a match that the window cuts short.
-/

namespace Text.Scan

set_option autoImplicit false

variable {α β γ L : Type}

inductive Mark (L : Type) where
  | free
  | first (label : L)
  | later (label : L)
  deriving DecidableEq

def Mark.label : Mark L → Option L
  | .free => none
  | .first label => some label
  | .later label => some label

def Mark.inMatch : Mark L → Bool
  | .free => false
  | _ => true

def Mark.isFirst : Mark L → Bool
  | .free => false
  | .first _ => true
  | .later _ => false

/-- The marks of a text after what is still pending of the match before it. -/
def scan (parts : List α → Option (List L)) : List L → List α → List (Mark L)
  | _, [] => []
  | l :: pending, _ :: s => .later l :: scan parts pending s
  | [], c :: s =>
    match parts (c :: s) with
    | some (l :: pending) => .first l :: scan parts pending s
    | _ => .free :: scan parts [] s

/-- The text with a mask for each match. -/
def substitute (mask : List β) : List (Mark L) → List β → List β
  | .free :: marks, c :: s => c :: substitute mask marks s
  | .first _ :: marks, _ :: s => mask ++ substitute mask marks s
  | .later _ :: marks, _ :: s => substitute mask marks s
  | _, _ => []

section Scan
variable {parts : List α → Option (List L)} {c : α} {s : List α} {l : L} {pending : List L}

theorem scan_first (h : parts (c :: s) = some (l :: pending)) :
    scan parts [] (c :: s) = .first l :: scan parts pending s := by
  rw [scan, h]

theorem scan_free (h : parts (c :: s) = none) :
    scan parts [] (c :: s) = .free :: scan parts [] s := by
  rw [scan, h]

/-- One step of a scan: `pending` before it and `rest` after it. -/
inductive Reads (parts : List α → Option (List L)) (c : α) (s : List α) :
    List L → Mark L → List L → Prop where
  | later (l : L) (rest : List L) : Reads parts c s (l :: rest) (.later l) rest
  | free (h : parts (c :: s) = none) : Reads parts c s [] .free []
  | first (l : L) (rest : List L) (h : parts (c :: s) = some (l :: rest)) :
    Reads parts c s [] (.first l) rest

theorem scan_reads (hne : ∀ s, parts s ≠ some []) (pending : List L) (c : α) (s : List α) :
    ∃ mark rest, scan parts pending (c :: s) = mark :: scan parts rest s ∧
      Reads parts c s pending mark rest := by
  cases pending with
  | cons l pending => exact ⟨.later l, pending, by rw [scan], .later l pending⟩
  | nil =>
    cases h : parts (c :: s) with
    | none => exact ⟨.free, [], scan_free h, .free h⟩
    | some labels =>
      cases labels with
      | nil => exact absurd h (hne _)
      | cons l rest => exact ⟨.first l, rest, scan_first h, .first l rest h⟩

@[simp] theorem length_scan (parts : List α → Option (List L)) (pending : List L) (s : List α) :
    (scan parts pending s).length = s.length := by
  induction s generalizing pending with
  | nil => simp [scan]
  | cons c s ih =>
    cases pending with
    | cons l pending => rw [scan, List.length_cons, List.length_cons, ih]
    | nil =>
      rw [scan]
      split <;> rw [List.length_cons, List.length_cons, ih]

/-- Nothing matches anywhere. -/
theorem scan_eq_replicate (h : ∀ y, y <:+ s → parts y = none) :
    scan parts [] s = List.replicate s.length .free := by
  induction s with
  | nil => rfl
  | cons c s ih =>
    have hrest := ih fun y hy => h y (hy.trans (List.suffix_cons c s))
    rw [scan_free (h _ (List.suffix_refl _)), hrest, List.length_cons, List.replicate_succ]

theorem substitute_replicate_free (mask s : List β) :
    substitute mask (List.replicate s.length (Mark.free : Mark L)) s = s := by
  induction s with
  | nil => rfl
  | cons c s ih => rw [List.length_cons, List.replicate_succ, substitute, ih]

/-! ## Occurrences -/

/-- How often a text starts so, at any position. -/
def occurrences (starts : List α → Bool) : List α → ℕ
  | [] => 0
  | c :: s => (if starts (c :: s) then 1 else 0) + occurrences starts s

section Occurrences
variable {starts : List α → Bool}

theorem occurrences_le_append (starts : List α → Bool) (x z : List α) :
    occurrences starts z ≤ occurrences starts (x ++ z) := by
  induction x with
  | nil => exact Nat.le_refl _
  | cons c x ih =>
    rw [List.cons_append, occurrences]
    omega

theorem occurrences_append (hmore : ∀ x z, starts x = true → starts (x ++ z) = true)
    (x z : List α) : occurrences starts x + occurrences starts z ≤ occurrences starts (x ++ z) := by
  induction x with
  | nil =>
    rw [occurrences, Nat.zero_add]
    exact Nat.le_refl _
  | cons c x ih =>
    have hhead : (if starts (c :: x) then 1 else 0) ≤ if starts (c :: (x ++ z)) then 1 else 0 := by
      split
      · rename_i h
        have hlong : starts (c :: (x ++ z)) = true := hmore (c :: x) z h
        rw [if_pos hlong]
      · exact Nat.zero_le _
    rw [List.cons_append, occurrences, occurrences]
    omega

theorem exists_of_occurrences_pos {s : List α} (h : 0 < occurrences starts s) :
    ∃ t, t <:+ s ∧ starts t = true := by
  induction s with
  | nil => exact absurd h (Nat.lt_irrefl 0)
  | cons c s ih =>
    rw [occurrences] at h
    split at h
    · rename_i hstarts
      exact ⟨c :: s, List.suffix_refl _, hstarts⟩
    · obtain ⟨t, ht, hstarts⟩ := ih (by omega)
      exact ⟨t, ht.trans (List.suffix_cons c s), hstarts⟩

/-- Where a match cannot start within a match, a scan finds every place at which one starts. -/
theorem countP_isFirst_scan {parts : List α → Option (List L)} (lead : α → Bool)
    (hne : ∀ s, parts s ≠ some [])
    (hlead : ∀ c s labels, parts (c :: s) = some labels →
      lead c = true ∧ ∀ d ∈ s.take (labels.length - 1), lead d = false)
    (pending : List L) (s : List α) (hpending : ∀ d ∈ s.take pending.length, lead d = false) :
    (scan parts pending s).countP Mark.isFirst = occurrences (fun t => (parts t).isSome) s := by
  induction s generalizing pending with
  | nil => cases pending <;> rfl
  | cons c s ih =>
    obtain ⟨mark, rest, hscan, hreads⟩ := scan_reads hne pending c s
    rw [hscan, List.countP_cons, occurrences]
    cases hreads with
    | later l rest =>
      have hc : lead c = false := hpending c List.mem_cons_self
      have hnone : (parts (c :: s)).isSome = false := by
        cases h : parts (c :: s) with
        | none => rfl
        | some labels => exact absurd (hlead c s labels h).1 (by rw [hc]; exact Bool.false_ne_true)
      rw [ih rest fun d hd => hpending d (List.mem_cons_of_mem c hd), hnone, Mark.isFirst]
      omega
    | free h =>
      rw [ih [] fun d hd => absurd hd List.not_mem_nil, h, Mark.isFirst]
      exact Nat.add_comm _ _
    | first l rest h =>
      rw [ih rest (hlead c s _ h).2, h, Mark.isFirst]
      exact Nat.add_comm _ _

end Occurrences

theorem scan_pending {x : List α} (h : x.length ≤ pending.length) (z : List α) :
    (scan parts pending (x ++ z)).take x.length = (pending.take x.length).map .later := by
  induction x generalizing pending with
  | nil => rfl
  | cons c x ih =>
    cases pending with
    | nil => exact absurd h (Nat.not_succ_le_zero _)
    | cons l pending =>
      rw [List.cons_append, scan, List.length_cons, List.take_succ_cons, List.take_succ_cons,
        List.map_cons, ih (Nat.le_of_succ_le_succ h)]

end Scan

/-- A replacement only looks at the marks. -/
theorem map_substitute (f : β → γ) (mask : List β) (marks : List (Mark L)) (s : List β) :
    (substitute mask marks s).map f = substitute (mask.map f) marks (s.map f) := by
  induction marks generalizing s with
  | nil => simp [substitute]
  | cons mark marks ih =>
    cases s with
    | nil => simp [substitute]
    | cons c s => cases mark <;> simp [substitute, ih]

/-! ## Lengths -/

section Length
variable {parts : List α → Option (List L)} {mask : List β} (unit : β → α)

/-- A replacement writes less than it takes away. -/
theorem length_substitute_le (hlong : ∀ s labels, parts s = some labels →
      mask.length < labels.length ∧ labels.length ≤ s.length) (s : List β) (pending : List L)
    (hpending : pending.length ≤ s.length) :
    (substitute mask (scan parts pending (s.map unit)) s).length + pending.length ≤ s.length := by
  induction s generalizing pending with
  | nil =>
    rw [List.eq_nil_of_length_eq_zero (Nat.le_zero.mp hpending)]
    exact Nat.le_refl 0
  | cons c s ih =>
    rw [List.map_cons]
    cases pending with
    | cons l pending =>
      rw [scan, substitute]
      have hrest := ih pending (Nat.le_of_succ_le_succ hpending)
      simp only [List.length_cons]
      omega
    | nil =>
      cases h : parts (unit c :: s.map unit) with
      | none =>
        rw [scan_free h, substitute]
        have hrest := ih [] (Nat.zero_le _)
        simp only [List.length_cons, List.length_nil] at hrest ⊢
        omega
      | some labels =>
        obtain ⟨hmask, hlen⟩ := hlong _ _ h
        cases labels with
        | nil => exact absurd hmask (Nat.not_lt_zero _)
        | cons l rest =>
          rw [List.length_cons, List.length_cons, List.length_map] at hlen
          have hrest := ih rest (by omega)
          rw [scan_first h, substitute, List.length_append]
          simp only [List.length_cons, List.length_nil] at hmask ⊢
          omega

theorem length_substitute_lt (hlong : ∀ s labels, parts s = some labels →
      mask.length < labels.length ∧ labels.length ≤ s.length) (s : List β)
    (hany : (scan parts [] (s.map unit)).any Mark.inMatch = true) :
    (substitute mask (scan parts [] (s.map unit)) s).length < s.length := by
  induction s with
  | nil => cases hany
  | cons c s ih =>
    rw [List.map_cons] at hany ⊢
    cases h : parts (unit c :: s.map unit) with
    | none =>
      rw [scan_free h] at hany ⊢
      rw [substitute, List.length_cons, List.length_cons]
      exact Nat.succ_lt_succ (ih hany)
    | some labels =>
      obtain ⟨hmask, hlen⟩ := hlong _ _ h
      cases labels with
      | nil => exact absurd hmask (Nat.not_lt_zero _)
      | cons l rest =>
        rw [List.length_cons, List.length_cons, List.length_map] at hlen
        have hrest := length_substitute_le unit hlong s rest (by omega)
        rw [scan_first h, substitute, List.length_append]
        simp only [List.length_cons] at hmask ⊢
        omega

/-- Without a match the text stays as it is. -/
theorem substitute_eq_self {s : List β} (h : (scan parts [] (s.map unit)).any Mark.inMatch = false) :
    substitute mask (scan parts [] (s.map unit)) s = s := by
  have hfree : scan parts [] (s.map unit) = List.replicate s.length .free := by
    rw [List.eq_replicate_iff]
    refine ⟨by rw [length_scan, List.length_map], ?_⟩
    intro mark hmark
    have hnot := List.any_eq_false.mp h mark hmark
    cases mark with
    | free => rfl
    | first label => exact absurd rfl hnot
    | later label => exact absurd rfl hnot
  rw [hfree, substitute_replicate_free]

/-- What is left keeps its order, where the mask has nothing to order. -/
theorem filterMap_substitute_sublist (f : β → Option γ) (hmask : mask.filterMap f = [])
    (marks : List (Mark L)) (s : List β) :
    ((substitute mask marks s).filterMap f).Sublist (s.filterMap f) := by
  induction marks generalizing s with
  | nil => exact List.nil_sublist _
  | cons mark marks ih =>
    cases s with
    | nil =>
      have hnil : substitute mask (mark :: marks) ([] : List β) = [] := by cases mark <;> rfl
      rw [hnil]
    | cons c s =>
      have htail : (s.filterMap f).Sublist ((c :: s).filterMap f) :=
        (List.sublist_cons_self c s).filterMap f
      cases mark with
      | free =>
        rw [substitute, ← List.singleton_append, ← List.singleton_append (l := s),
          List.filterMap_append, List.filterMap_append]
        exact List.Sublist.append (List.Sublist.refl _) (ih s)
      | first l =>
        rw [substitute, List.filterMap_append, hmask, List.nil_append]
        exact (ih s).trans htail
      | later l =>
        rw [substitute]
        exact (ih s).trans htail

end Length

/-! ## Windows -/

/-- More text only makes a match longer, and a text too short for a match has no match
anywhere and only loose parts of one. -/
structure Windowed (parts : List α → Option (List L)) (loose : L → Bool) : Prop where
  ne_nil : ∀ s, parts s ≠ some []
  length_le : ∀ {s labels}, parts s = some labels → labels.length ≤ s.length
  extend : ∀ {x labels}, parts x = some labels → ∀ z,
    ∃ longer, parts (x ++ z) = some longer ∧ longer.take x.length = labels
  stuck : ∀ {x z labels}, parts x = none → parts (x ++ z) = some labels →
    x.length ≤ labels.length ∧ (∀ l ∈ labels.take x.length, loose l = true) ∧
      ∀ y, y <:+ x → parts y = none

section Window
variable {parts : List α → Option (List L)} {loose : L → Bool}

theorem Windowed.nil (h : Windowed parts loose) : parts [] = none := by
  cases hnil : parts [] with
  | none => rfl
  | some labels =>
    have hempty := List.eq_nil_of_length_eq_zero (Nat.le_zero.mp (h.length_le hnil))
    rw [hempty] at hnil
    exact absurd hnil (h.ne_nil [])

theorem Windowed.none_of_append (h : Windowed parts loose) {x z : List α}
    (hxz : parts (x ++ z) = none) : parts x = none := by
  cases hx : parts x with
  | none => rfl
  | some labels =>
    obtain ⟨longer, hlonger, -⟩ := h.extend hx z
    rw [hxz] at hlonger
    cases hlonger

/-- What a window may lose of the marks of the whole. -/
def Loses (loose : L → Bool) (window whole : Mark L) : Prop :=
  window = whole ∨ window = .free ∧ ∀ l ∈ whole.label, loose l = true

theorem scan_window (h : Windowed parts loose) (x z : List α) (pending : List L) :
    List.Forall₂ (Loses loose) (scan parts (pending.take x.length) x)
      ((scan parts pending (x ++ z)).take x.length) := by
  induction x generalizing pending with
  | nil => exact List.Forall₂.nil
  | cons c x ih =>
    rw [List.length_cons]
    cases pending with
    | cons l pending =>
      rw [List.take_succ_cons, scan, List.cons_append, scan, List.take_succ_cons]
      exact List.Forall₂.cons (Or.inl rfl) (ih pending)
    | nil =>
      rw [List.take_nil]
      cases hx : parts (c :: x) with
      | some labels =>
        obtain ⟨longer, hlonger, htake⟩ := h.extend hx z
        rw [List.cons_append] at hlonger
        cases labels with
        | nil => exact absurd hx (h.ne_nil _)
        | cons l labels =>
          cases longer with
          | nil => cases htake
          | cons l' longer =>
            rw [List.length_cons, List.take_succ_cons] at htake
            obtain ⟨rfl, rfl⟩ := List.cons.inj htake
            rw [scan_first hx, List.cons_append, scan_first hlonger, List.take_succ_cons]
            exact List.Forall₂.cons (Or.inl rfl) (ih longer)
      | none =>
        cases hxz : parts (c :: (x ++ z)) with
        | none =>
          rw [scan_free hx, List.cons_append, scan_free hxz, List.take_succ_cons]
          refine List.Forall₂.cons (Or.inl rfl) ?_
          have hrest := ih []
          rwa [List.take_nil] at hrest
        | some labels =>
          obtain ⟨hlen, hloose, hnone⟩ := h.stuck hx hxz
          cases labels with
          | nil => exact absurd hlen (Nat.not_succ_le_zero _)
          | cons l labels =>
            rw [List.length_cons, List.take_succ_cons] at hloose
            have hlen' : x.length ≤ labels.length := Nat.le_of_succ_le_succ hlen
            rw [scan_eq_replicate hnone, List.cons_append, scan_first hxz, List.take_succ_cons,
              scan_pending hlen', List.length_cons, List.replicate_succ]
            refine List.Forall₂.cons (Or.inr ⟨rfl, ?_⟩) ?_
            · intro l' hl'
              cases hl'
              exact hloose l List.mem_cons_self
            · rw [List.forall₂_iff_get]
              have hsize : (List.map (Mark.later (L := L)) (labels.take x.length)).length
                  = x.length := by
                rw [List.length_map, List.length_take]
                omega
              refine ⟨by rw [List.length_replicate, hsize], ?_⟩
              intro i hi hi'
              right
              refine ⟨by simp, ?_⟩
              intro l' hl'
              simp only [List.get_eq_getElem, List.getElem_map, Mark.label,
                Option.mem_some_iff] at hl'
              rw [← hl']
              exact hloose _ (List.mem_cons_of_mem _ (List.getElem_mem _))

end Window

/-! ## Windows of a pattern -/

section Pattern
open Text.Pattern
variable {head rest : List (Item α L)} {item : Item α L} {loose : L → Bool}

/-- A pattern whose last demand is `item`: what comes before it is loose. -/
theorem windowed_matchAt (hdet : Determinate (head ++ item :: rest))
    (hone : ∃ test label tail, head = .one test label :: tail) (hleast : item.least ≤ 1)
    (hrest : ∀ s, greedy rest s ≠ none) (hloose : ∀ i ∈ head, loose i.label = true)
    (hsuffix : ∀ x z labels, matchAt (head ++ item :: rest) x = none →
      greedy head (x ++ z) = some labels → x.length ≤ labels.length →
      ∀ y, y <:+ x → matchAt (head ++ item :: rest) y = none) :
    Windowed (matchAt (head ++ item :: rest)) loose := by
  constructor
  · intro s hs
    obtain ⟨test, label, tail, rfl⟩ := hone
    rw [List.cons_append] at hs
    cases s with
    | nil => cases hs
    | cons c s =>
      rw [matchAt] at hs
      split at hs
      · obtain ⟨labels, -, hlabels⟩ := Option.map_eq_some_iff.mp hs
        cases hlabels
      · cases hs
  · intro s labels hs
    rw [matchAt_eq_greedy hdet] at hs
    exact length_le_of_greedy hs
  · intro x labels hx z
    rw [matchAt_eq_greedy hdet] at hx ⊢
    exact greedy_append hx z
  · intro x z labels hx hxz
    have hnone := hx
    rw [matchAt_eq_greedy hdet] at hx hxz
    obtain ⟨first, second, hfirst, rfl, hle⟩ := greedy_stuck hleast hrest hx hxz
    refine ⟨?_, ?_, hsuffix x z first hnone hfirst hle⟩
    · rw [List.length_append]
      omega
    · intro l hl
      rw [List.take_append_of_le_length hle] at hl
      obtain ⟨k, hk⟩ := List.mem_iff_getElem?.mp (List.mem_of_mem_take hl)
      obtain ⟨c, -, i, hi, rfl, -⟩ := item_of_greedy hfirst hk
      exact hloose i hi

end Pattern

end Text.Scan
