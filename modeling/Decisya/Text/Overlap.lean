import Decisya.Text.Scan

/-!
# Two replacements, one after the other

The second matcher reads the text that the first one left, so where a first match lies on a
second one it takes the second one's end away. `fates` follows both at once on the original
text. Beside it runs the scan of the second matcher on the text as it was: the two agree but
for a match that the first matcher has met before its end, and `Clear` says that no such match
leaves anything behind before the limit.
-/

namespace Text.Overlap

open Text.Scan

set_option autoImplicit false

variable {υ α J B : Type}

inductive Fate where
  | kept
  | replaced
  | dropped
  deriving DecidableEq

/-- How far the next match is. -/
def gap (outer : List υ → Option (List J)) : List υ → ℕ
  | [] => 0
  | c :: s => if (outer (c :: s)).isSome then 0 else gap outer s + 1

/-- What becomes of each element: `pj` and `pb` are pending in the two matches. -/
def fates (outer : List υ → Option (List J)) (inner : List υ → Option (List B)) :
    List J → List B → List υ → List Fate
  | _, _, [] => []
  | _ :: pj, _, _ :: s => .dropped :: fates outer inner pj [] s
  | [], _ :: pb, _ :: s => .dropped :: fates outer inner [] pb s
  | [], [], c :: s =>
    match outer (c :: s) with
    | some labels => .replaced :: fates outer inner labels.tail [] s
    | none =>
      match inner ((c :: s).take (gap outer (c :: s))) with
      | some labels => .replaced :: fates outer inner [] labels.tail s
      | none => .kept :: fates outer inner [] [] s

def assemble (mask : List α) : List Fate → List α → List α
  | .kept :: rest, c :: s => c :: assemble mask rest s
  | .replaced :: rest, _ :: s => mask ++ assemble mask rest s
  | .dropped :: rest, _ :: s => assemble mask rest s
  | _, _ => []

/-- How much an element with this fate writes. -/
def Fate.size (masked : ℕ) : Fate → ℕ
  | .kept => 1
  | .replaced => masked
  | .dropped => 0

section Twice
variable {outer : List υ → Option (List J)} {inner : List υ → Option (List B)} {unit : α → υ}

theorem gap_of_some {c : υ} {s : List υ} {labels : List J} (h : outer (c :: s) = some labels) :
    gap outer (c :: s) = 0 := by
  rw [gap, h]
  rfl

theorem gap_of_none {c : υ} {s : List υ} (h : outer (c :: s) = none) :
    gap outer (c :: s) = gap outer s + 1 := by
  rw [gap, h]
  rfl

/-- Up to the next match the text is as it was, and then the mask follows. -/
theorem substitute_gap (hne : ∀ s, outer s ≠ some []) (mask u : List υ) :
    ∃ rest, substitute mask (scan outer [] u) u = u.take (gap outer u) ++ rest ∧
      (rest = [] ∨ ∃ more, rest = mask ++ more) := by
  induction u with
  | nil => exact ⟨[], rfl, Or.inl rfl⟩
  | cons c u ih =>
    cases h : outer (c :: u) with
    | none =>
      obtain ⟨rest, heq, hrest⟩ := ih
      refine ⟨rest, ?_, hrest⟩
      rw [scan_free h, substitute, gap_of_none h, List.take_succ_cons, heq, List.cons_append]
    | some labels =>
      cases labels with
      | nil => exact absurd h (hne _)
      | cons l labels =>
        refine ⟨mask ++ substitute mask (scan outer labels u) u, ?_, Or.inr ⟨_, rfl⟩⟩
        rw [scan_first h, substitute, gap_of_some h]
        rfl

/-- The second replacement of a text that the first has gone over. -/
theorem substitute_twice {tight : J → Bool} {loose : B → Bool} (ho : Windowed outer tight)
    (hi : Windowed inner loose) {mask : List α} (hmask : mask ≠ [])
    (hstop : ∀ m ∈ mask, ∀ x z, inner (x ++ unit m :: z) = inner x) (s : List α) (pj : List J)
    (pb : List B) (hpj : pj ≠ [] → pb = []) (hpb : pb.length ≤ gap outer (s.map unit)) :
    substitute mask
      (scan inner pb ((substitute mask (scan outer pj (s.map unit)) s).map unit))
      (substitute mask (scan outer pj (s.map unit)) s) =
        assemble mask (fates outer inner pj pb (s.map unit)) s := by
  have hmasked : ∀ (m : List α) (t : List α), (∀ x ∈ m, ∀ a b, inner (a ++ unit x :: b) = inner a) →
      substitute mask (scan inner [] ((m ++ t).map unit)) (m ++ t) =
        m ++ substitute mask (scan inner [] (t.map unit)) t := by
    intro m t hm
    induction m with
    | nil => rfl
    | cons x m ih =>
      have hx : inner (unit x :: (m ++ t).map unit) = none := by
        have hempty := hm x List.mem_cons_self [] ((m ++ t).map unit)
        rw [List.nil_append] at hempty
        rw [hempty, hi.nil]
      rw [List.cons_append, List.map_cons, scan_free hx, substitute,
        ih fun y hy => hm y (List.mem_cons_of_mem x hy), List.cons_append]
  induction s generalizing pj pb with
  | nil =>
    have hpb' : pb = [] := List.eq_nil_of_length_eq_zero (Nat.le_zero.mp hpb)
    rw [hpb']
    cases pj <;> rfl
  | cons c s ih =>
    rw [List.map_cons] at hpb ⊢
    cases pj with
    | cons l pj =>
      have hpb' := hpj (List.cons_ne_nil l pj)
      subst hpb'
      rw [scan, substitute, fates, assemble]
      exact ih pj [] (fun _ => rfl) (Nat.zero_le _)
    | nil =>
      cases houter : outer (unit c :: s.map unit) with
      | some labels =>
        rw [gap_of_some houter] at hpb
        have hpb' : pb = [] := List.eq_nil_of_length_eq_zero (Nat.le_zero.mp hpb)
        subst hpb'
        cases labels with
        | nil => exact absurd houter (ho.ne_nil _)
        | cons l labels =>
          rw [scan_first houter, substitute, fates, houter, hmasked mask _ hstop]
          dsimp only
          rw [assemble, ih _ [] (fun _ => rfl) (Nat.zero_le _), List.tail_cons]
      | none =>
        rw [gap_of_none houter] at hpb
        cases pb with
        | cons l pb =>
          rw [scan_free houter, substitute, List.map_cons, scan, substitute, fates, assemble]
          exact ih [] pb (fun h => absurd rfl h) (Nat.le_of_succ_le_succ hpb)
        | nil =>
          -- the second matcher sees the text up to the next mask
          have hview : inner (unit c :: (substitute mask (scan outer [] (s.map unit)) s).map unit)
              = inner ((unit c :: s.map unit).take (gap outer (unit c :: s.map unit))) := by
            obtain ⟨rest, heq, hrest⟩ := substitute_gap ho.ne_nil (mask.map unit) (s.map unit)
            rw [map_substitute, heq, gap_of_none houter, List.take_succ_cons, ← List.cons_append]
            rcases hrest with rfl | ⟨more, rfl⟩
            · rw [List.append_nil]
            · cases mask with
              | nil => exact absurd rfl hmask
              | cons m mask => exact hstop m List.mem_cons_self _ _
          rw [scan_free houter, substitute, List.map_cons]
          cases hinner : inner ((unit c :: s.map unit).take (gap outer (unit c :: s.map unit))) with
          | none =>
            rw [hinner] at hview
            rw [scan_free hview, substitute, fates, houter, hinner]
            dsimp only
            rw [assemble, ih [] [] (fun _ => rfl) (Nat.zero_le _)]
          | some labels =>
            rw [hinner] at hview
            cases labels with
            | nil => exact absurd hinner (hi.ne_nil _)
            | cons l labels =>
              rw [scan_first hview, substitute, fates, houter, hinner]
              dsimp only
              rw [assemble, List.tail_cons]
              congr 1
              apply ih [] labels (fun h => absurd rfl h)
              have hle := hi.length_le hinner
              rw [List.length_take, gap_of_none houter, List.length_cons] at hle
              omega

/-- The first mask stands where a match starts, and before it nothing changed. -/
theorem assemble_first (outer : List υ → Option (List J)) (inner : List υ → Option (List B))
    (unit : α → υ) (mask s : List α) :
    assemble mask (fates outer inner [] [] (s.map unit)) s = s ∨
      ∃ k rest, k < s.length ∧
        assemble mask (fates outer inner [] [] (s.map unit)) s = s.take k ++ (mask ++ rest) ∧
        (outer ((s.map unit).drop k) ≠ none ∨ ∃ t, inner (((s.map unit).drop k).take t) ≠ none) := by
  induction s with
  | nil => exact Or.inl rfl
  | cons c s ih =>
    rw [List.map_cons]
    cases houter : outer (unit c :: s.map unit) with
    | some labels =>
      right
      refine ⟨0, assemble mask (fates outer inner labels.tail [] (s.map unit)) s,
        Nat.succ_pos _, ?_, Or.inl ?_⟩
      · rw [fates, houter]
        rfl
      · rw [List.drop_zero, houter]
        exact Option.some_ne_none labels
    | none =>
      cases hinner : inner ((unit c :: s.map unit).take (gap outer (unit c :: s.map unit))) with
      | some labels =>
        right
        refine ⟨0, assemble mask (fates outer inner [] labels.tail (s.map unit)) s,
          Nat.succ_pos _, ?_, Or.inr ⟨gap outer (unit c :: s.map unit), ?_⟩⟩
        · rw [fates, houter, hinner]
          rfl
        · rw [List.drop_zero, hinner]
          exact Option.some_ne_none labels
      | none =>
        have hkept : assemble mask (fates outer inner [] [] (unit c :: s.map unit)) (c :: s)
            = c :: assemble mask (fates outer inner [] [] (s.map unit)) s := by
          rw [fates, houter, hinner]
          rfl
        rw [hkept]
        rcases ih with heq | ⟨k, rest, hk, heq, hstart⟩
        · exact Or.inl (by rw [heq])
        · right
          refine ⟨k + 1, rest, Nat.succ_lt_succ hk, ?_, hstart⟩
          rw [heq, List.take_succ_cons, List.cons_append]

end Twice

/-! ## Beside the scan of the original text -/

/-- Not a loose part of a match. -/
def tight (loose : B → Bool) : Mark B → Bool
  | .free => false
  | .first label => !loose label
  | .later label => !loose label

/-- Whether the second match at hand has been met by a first one. -/
def nextMet : Bool → Mark J → Mark B → Bool
  | _, _, .free => false
  | _, outer, .first _ => outer.inMatch
  | met, outer, .later _ => met || outer.inMatch

/-- A match counts by its leading elements, anything else by itself. -/
def weight (leadJ : J → ℕ) (leadB : B → ℕ) : Mark J → Mark B → ℕ
  | .first label, _ => leadJ label
  | .later label, _ => leadJ label
  | .free, .first label => leadB label
  | .free, .later label => leadB label
  | .free, .free => 1

/-- A tight part left over by a match that was met. -/
def spilled (loose : B → Bool) (met : Bool) (outer : Mark J) (inner : Mark B) : Bool :=
  !outer.inMatch && met && tight loose inner

/-- Left over, or flagged and in no match that would hide it. -/
def exposed (loose : B → Bool) (flag met : Bool) (outer : Mark J) (inner : Mark B) : Bool :=
  spilled loose met outer inner || !outer.inMatch && flag && !tight loose inner

/-- Whatever is exposed comes at or after the limit. -/
def clear (loose : B → Bool) (leadJ : J → ℕ) (leadB : B → ℕ) (limit : ℕ) :
    Bool → ℕ → List Bool → List (Mark J) → List (Mark B) → Bool
  | met, n, flag :: flags, mj :: outer, mb :: inner =>
    (!exposed loose flag met mj mb || decide (limit ≤ n)) &&
      clear loose leadJ leadB limit (nextMet met mj mb) (n + weight leadJ leadB mj mb) flags outer
        inner
  | _, _, _, _, _ => true

/-- No loose part later in a match starts a match, wherever the text is cut. -/
def Quiet (inner : List υ → Option (List B)) (loose : B → Bool) (pending : List B)
    (s : List υ) : Prop :=
  ∀ k l, pending[k]? = some l → loose l = true → ∀ t, inner ((s.drop k).take t) = none

structure Interplay (outer : List υ → Option (List J)) (inner : List υ → Option (List B))
    (loose : B → Bool) (leadJ : J → ℕ) (leadB : B → ℕ) (masked : ℕ) : Prop where
  windowed_outer : Windowed outer fun _ => true
  windowed_inner : Windowed inner loose
  quiet : ∀ {c s l rest}, inner (c :: s) = some (l :: rest) → Quiet inner loose rest s
  lead_outer : ∀ {s labels}, outer s = some labels → (labels.map leadJ).sum ≤ masked
  lead_inner : ∀ {s labels}, inner s = some labels → (labels.map leadB).sum ≤ masked
  lead_le : ∀ l, leadB l ≤ 1

/-- `pb` is pending in the second match of the original text, and `pc` in that of the text the
first matcher left. `n` counts what came before and `e` what has been written. -/
structure Track (outer : List υ → Option (List J)) (inner : List υ → Option (List B))
    (loose : B → Bool) (leadJ : J → ℕ) (leadB : B → ℕ) (s : List υ) (pj : List J)
    (pb pc : List B) (met : Bool) (n e : ℕ) : Prop where
  alone : pj ≠ [] → pc = []
  broken : met = true → pc = []
  inside : met = false → pj ≠ [] → pb = []
  outside : met = false → pj = [] →
    pc = pb.take (gap outer s) ∨ pc = [] ∧ ∀ l ∈ pb.take (gap outer s), loose l = true
  quiet : Quiet inner loose pb s
  written : n + (pj.map leadJ).sum + (pc.map leadB).sum ≤ e

section Track
variable {outer : List υ → Option (List J)} {inner : List υ → Option (List B)} {loose : B → Bool}
variable {leadJ : J → ℕ} {leadB : B → ℕ} {masked : ℕ}
variable {c : υ} {s : List υ} {pj pj' : List J} {pb pb' pc : List B} {mj : Mark J} {mb : Mark B}
variable {met : Bool} {n e n' e' : ℕ}

theorem Track.pending (h : Track outer inner loose leadJ leadB s pj [] pc met n e) : pc = [] := by
  cases hmet : met with
  | true => exact h.broken hmet
  | false =>
    cases pj with
    | cons l pj => exact h.alone (List.cons_ne_nil l pj)
    | nil =>
      rcases h.outside hmet rfl with heq | ⟨heq, -⟩
      · rw [heq, List.take_nil]
      · exact heq

theorem Quiet.next (ha : Interplay outer inner loose leadJ leadB masked)
    (hr : Reads inner c s pb mb pb') (h : Quiet inner loose pb (c :: s)) :
    Quiet inner loose pb' s := by
  cases hr with
  | later l rest => exact fun k l' hl hloose t => h (k + 1) l' hl hloose t
  | free hnone =>
    intro k l hl
    cases hl
  | first l rest hsome => exact ha.quiet hsome

/-- Within a match of the first matcher the second one has nothing pending. -/
theorem Track.of_inMatch (ha : Interplay outer inner loose leadJ leadB masked)
    (hr : Reads inner c s pb mb pb') (hq : Quiet inner loose pb (c :: s))
    (hmj : mj.inMatch = true) (hw : n' + (pj'.map leadJ).sum ≤ e') :
    Track outer inner loose leadJ leadB s pj' pb' [] (nextMet met mj mb) n' e' := by
  have hfree : nextMet met mj mb = false → pb' = [] := by
    intro hmet
    cases hr with
    | later l rest =>
      rw [nextMet, hmj, Bool.or_true] at hmet
      cases hmet
    | free hnone => rfl
    | first l rest hsome =>
      rw [nextMet, hmj] at hmet
      cases hmet
  refine ⟨fun _ => rfl, fun _ => rfl, fun hmet _ => hfree hmet, ?_, hq.next ha hr, by simpa using hw⟩
  intro hmet _
  left
  rw [hfree hmet, List.take_nil]

/-- The second matcher on the text up to the next mask. -/
theorem inner_gap (ha : Interplay outer inner loose leadJ leadB masked)
    (hr : Reads inner c s [] mb pb') (hnone : outer (c :: s) = none) :
    inner ((c :: s).take (gap outer (c :: s))) = none ∧
        (mb = .free ∨ ∃ l, mb = .first l ∧ loose l = true) ∧
        (∀ l ∈ pb'.take (gap outer s), loose l = true) ∨
      ∃ l, mb = .first l ∧
        inner ((c :: s).take (gap outer (c :: s))) = some (l :: pb'.take (gap outer s)) := by
  have hgap := gap_of_none hnone
  have hsplit := List.take_append_drop (gap outer (c :: s)) (c :: s)
  have hlen : ((c :: s).take (gap outer (c :: s))).length = min (gap outer s + 1) (s.length + 1) := by
    rw [List.length_take, hgap, List.length_cons]
  cases hr with
  | free hfree =>
    left
    rw [← hsplit] at hfree
    refine ⟨ha.windowed_inner.none_of_append hfree, Or.inl rfl, ?_⟩
    intro l hl
    rw [List.take_nil] at hl
    cases hl
  | first l _ hsome =>
    have hle := ha.windowed_inner.length_le hsome
    have htake : (l :: pb').take ((c :: s).take (gap outer (c :: s))).length
        = l :: pb'.take (gap outer s) := by
      rw [hlen, ← List.take_succ_cons, List.take_eq_take_iff]
      simp only [List.length_cons] at hle ⊢
      omega
    rw [← hsplit] at hsome
    cases hcut : inner ((c :: s).take (gap outer (c :: s))) with
    | none =>
      obtain ⟨-, hloose, -⟩ := ha.windowed_inner.stuck hcut hsome
      rw [htake] at hloose
      left
      exact ⟨rfl, Or.inr ⟨l, rfl, hloose l List.mem_cons_self⟩,
        fun l' hl' => hloose l' (List.mem_cons_of_mem l hl')⟩
    | some labels =>
      obtain ⟨longer, hlonger, hlabels⟩ := ha.windowed_inner.extend hcut
        ((c :: s).drop (gap outer (c :: s)))
      rw [hsome] at hlonger
      cases hlonger
      right
      exact ⟨l, rfl, by rw [← hlabels, htake]⟩

/-- One step: the fates and the two scans go on together, unless a match that was met leaves
something over. -/
theorem Track.step (ha : Interplay outer inner loose leadJ leadB masked)
    (h : Track outer inner loose leadJ leadB (c :: s) pj pb pc met n e) :
    ∃ fate mj mb pj' pb' pc', fates outer inner pj pc (c :: s) = fate :: fates outer inner pj' pc' s ∧
      scan outer pj (c :: s) = mj :: scan outer pj' s ∧
      scan inner pb (c :: s) = mb :: scan inner pb' s ∧
      (fate = .kept → mj = .free ∧ (tight loose mb = true → met = true)) ∧
      (fate ≠ .kept → mj ≠ .free ∨ mb ≠ .free) ∧
      (fate = .dropped → spilled loose met mj mb = false) ∧
      (spilled loose met mj mb = false →
        Track outer inner loose leadJ leadB s pj' pb' pc' (nextMet met mj mb)
          (n + weight leadJ leadB mj mb) (e + fate.size masked)) := by
  obtain ⟨mj, pj', hscan, hreads⟩ := scan_reads ha.windowed_outer.ne_nil pj c s
  obtain ⟨mb, pb', hscan', hreads'⟩ := scan_reads ha.windowed_inner.ne_nil pb c s
  have hwritten := h.written
  cases hreads with
  | later l rest =>
    have hpc := h.alone (List.cons_ne_nil l pj')
    subst hpc
    refine ⟨.dropped, .later l, mb, pj', pb', [], by rw [fates], hscan, hscan', nofun,
      fun _ => Or.inl nofun, fun _ => rfl, fun _ => ?_⟩
    apply Track.of_inMatch ha hreads' h.quiet rfl
    simp only [List.map_cons, List.sum_cons, List.map_nil, List.sum_nil] at hwritten
    simp only [weight, Fate.size]
    omega
  | first l rest hsome =>
    have hpc : pc = [] := by
      cases hmet : met with
      | true => exact h.broken hmet
      | false =>
        rcases h.outside hmet rfl with heq | ⟨heq, -⟩
        · rw [heq, gap_of_some hsome, List.take_zero]
        · exact heq
    subst hpc
    refine ⟨.replaced, .first l, mb, pj', pb', [], ?_, hscan, hscan', nofun,
      fun _ => Or.inl nofun, nofun, fun _ => ?_⟩
    · rw [fates, hsome]
      rfl
    · apply Track.of_inMatch ha hreads' h.quiet rfl
      have hlead := ha.lead_outer hsome
      simp only [List.map_cons, List.sum_cons] at hlead
      simp only [List.map_nil, List.sum_nil] at hwritten
      simp only [weight, Fate.size]
      omega
  | free hnone =>
    have hgap := gap_of_none hnone
    simp only [List.map_nil, List.sum_nil, Nat.add_zero] at hwritten
    cases pc with
    | cons l pc =>
      have hmet : met = false := by
        cases hmet : met with
        | false => rfl
        | true => exact absurd (h.broken hmet) (List.cons_ne_nil l pc)
      have houtside : l :: pc = pb.take (gap outer (c :: s)) := by
        rcases h.outside hmet rfl with heq | ⟨heq, -⟩
        · exact heq
        · cases heq
      subst hmet
      cases hreads' with
      | free hfree => cases h.pending
      | first l' rest hsome => cases h.pending
      | later l' rest =>
        rw [hgap, List.take_succ_cons] at houtside
        obtain ⟨rfl, rfl⟩ := List.cons.inj houtside
        refine ⟨.dropped, .free, .later l, [], pb', pb'.take (gap outer s), by rw [fates], hscan,
          hscan', nofun, fun _ => Or.inr nofun, fun _ => rfl, fun _ => ?_⟩
        refine ⟨fun hne => absurd rfl hne, nofun, fun _ hne => absurd rfl hne,
          fun _ _ => Or.inl rfl, h.quiet.next ha (.later l pb'), ?_⟩
        simp only [List.map_cons, List.sum_cons] at hwritten
        simp only [weight, Fate.size, List.map_nil, List.sum_nil]
        omega
    | nil =>
      simp only [List.map_nil, List.sum_nil, Nat.add_zero] at hwritten
      have hquiet := h.quiet.next ha hreads'
      have hkept : inner ((c :: s).take (gap outer (c :: s))) = none →
          fates outer inner [] [] (c :: s) = .kept :: fates outer inner [] [] s := by
        intro hinner
        rw [fates, hnone, hinner]
      cases pb with
      | nil =>
        rcases inner_gap ha hreads' hnone with ⟨hinner, hmb, hloose⟩ | ⟨l, rfl, hinner⟩
        · refine ⟨.kept, .free, mb, [], pb', [], hkept hinner, hscan, hscan',
            fun _ => ⟨rfl, fun htight => ?_⟩, fun hne => absurd rfl hne, nofun, fun _ => ?_⟩
          · rcases hmb with rfl | ⟨l, rfl, hl⟩
            · cases htight
            · rw [tight, hl] at htight
              cases htight
          · refine ⟨fun _ => rfl, fun _ => rfl, fun _ hne => absurd rfl hne,
              fun _ _ => Or.inr ⟨rfl, hloose⟩, hquiet, ?_⟩
            simp only [Fate.size, List.map_nil, List.sum_nil]
            rcases hmb with rfl | ⟨l, rfl, -⟩
            · simp only [weight]
              omega
            · have hle := ha.lead_le l
              simp only [weight]
              omega
        · refine ⟨.replaced, .free, .first l, [], pb', pb'.take (gap outer s), ?_, hscan, hscan',
            nofun, fun _ => Or.inr nofun, nofun, fun _ => ?_⟩
          · rw [fates, hnone, hinner]
            rfl
          · refine ⟨fun hne => absurd rfl hne, nofun, fun _ hne => absurd rfl hne,
              fun _ _ => Or.inl rfl, hquiet, ?_⟩
            have hlead := ha.lead_inner hinner
            simp only [List.map_cons, List.sum_cons] at hlead
            simp only [weight, Fate.size, List.map_nil, List.sum_nil]
            omega
      | cons l _ =>
        -- the match of the original text was cut before this place
        cases hreads'
        have hcases : loose l = true ∧ (met = false → ∀ l ∈ pb'.take (gap outer s), loose l = true) ∨
            met = true ∧ loose l = false := by
          cases hmet : met with
          | true =>
            cases hl : loose l with
            | true => exact Or.inl ⟨rfl, nofun⟩
            | false => exact Or.inr ⟨rfl, rfl⟩
          | false =>
            rcases h.outside hmet rfl with heq | ⟨-, hloose⟩
            · rw [hgap, List.take_succ_cons] at heq
              cases heq
            · rw [hgap, List.take_succ_cons] at hloose
              exact Or.inl ⟨hloose l List.mem_cons_self,
                fun _ l' hl' => hloose l' (List.mem_cons_of_mem l hl')⟩
        rcases hcases with ⟨hl, hloose⟩ | ⟨rfl, hl⟩
        · have hinner := h.quiet 0 l rfl hl (gap outer (c :: s))
          refine ⟨.kept, .free, .later l, [], pb', [], hkept hinner, hscan, hscan',
            fun _ => ⟨rfl, fun htight => ?_⟩, fun hne => absurd rfl hne, nofun, fun _ => ?_⟩
          · rw [tight, hl] at htight
            cases htight
          · refine ⟨fun _ => rfl, fun _ => rfl, fun _ hne => absurd rfl hne, fun hmet _ => ?_,
              hquiet, ?_⟩
            · rw [nextMet, Mark.inMatch, Bool.or_false] at hmet
              exact Or.inr ⟨rfl, hloose hmet⟩
            · have hle := ha.lead_le l
              simp only [weight, Fate.size, List.map_nil, List.sum_nil]
              omega
        · have hspilled : spilled loose true (.free : Mark J) (.later l) = true := by
            rw [spilled, tight, hl]
            rfl
          cases hinner : inner ((c :: s).take (gap outer (c :: s))) with
          | none =>
            refine ⟨.kept, .free, .later l, [], pb', [], hkept hinner, hscan, hscan',
              fun _ => ⟨rfl, fun _ => rfl⟩, fun hne => absurd rfl hne, nofun, fun hnot => ?_⟩
            rw [hspilled] at hnot
            cases hnot
          | some labels =>
            refine ⟨.replaced, .free, .later l, [], pb', labels.tail, ?_, hscan, hscan', nofun,
              fun _ => Or.inr nofun, nofun, fun hnot => ?_⟩
            · rw [fates, hnone, hinner]
            · rw [hspilled] at hnot
              cases hnot

/-! ### Whole texts -/

variable {mask : List α} {unit : α → υ} (limit : ℕ)

/-- Before the limit only the mask and what needs no hiding is written. -/
theorem Track.shown (ha : Interplay outer inner loose leadJ leadB mask.length) {P : α → Prop}
    (hmask : ∀ x ∈ mask, P x) {s : List α} (flags : List Bool)
    (h : Track outer inner loose leadJ leadB (s.map unit) pj pb pc met n e)
    (hlen : flags.length = s.length)
    (hclear : clear loose leadJ leadB limit met n flags (scan outer pj (s.map unit))
      (scan inner pb (s.map unit)) = true)
    (hplain : ∀ (i : ℕ) (x : α), s[i]? = some x → flags[i]? = some false →
      (scan outer pj (s.map unit))[i]? = some Mark.free →
      (∀ m ∈ (scan inner pb (s.map unit))[i]?, tight loose m = false) → P x) :
    ∀ x ∈ (assemble mask (fates outer inner pj pc (s.map unit)) s).take (limit - e), P x := by
  induction s generalizing pj pb pc met n e flags with
  | nil =>
    intro x hx
    have hnil : assemble mask (fates outer inner pj pc ([] : List υ)) ([] : List α) = [] := by
      cases pj <;> cases pc <;> rfl
    rw [List.map_nil, hnil, List.take_nil] at hx
    cases hx
  | cons c s ih =>
    cases flags with
    | nil => cases hlen
    | cons flag flags =>
      obtain ⟨fate, mj, mb, pj', pb', pc', hfates, houter, hinner, hkept, -, -, hnext⟩ := h.step ha
      rw [List.map_cons] at hclear hplain ⊢
      rw [houter, hinner] at hclear hplain
      rw [hfates]
      rw [clear, Bool.and_eq_true, Bool.or_eq_true, Bool.not_eq_true', decide_eq_true_eq] at hclear
      obtain ⟨hhere, hthere⟩ := hclear
      rcases Nat.lt_or_ge e limit with hlt | hge
      · have hwritten := h.written
        have hnot : exposed loose flag met mj mb = false := hhere.resolve_right (by omega)
        rw [exposed, Bool.or_eq_false_iff] at hnot
        obtain ⟨hspilled, hflag⟩ := hnot
        have hrest := ih flags (hnext hspilled) (Nat.succ.inj hlen) hthere fun i x hx hf hm hb =>
          hplain (i + 1) x hx hf hm hb
        intro x hx
        cases fate with
        | kept =>
          obtain ⟨rfl, htight⟩ := hkept rfl
          rw [assemble, show limit - e = limit - (e + 1) + 1 by omega, List.take_succ_cons] at hx
          rcases List.mem_cons.mp hx with rfl | hx
          · have hloose : tight loose mb = false := by
              cases hmb : tight loose mb with
              | false => rfl
              | true =>
                rw [spilled, htight hmb, hmb] at hspilled
                cases hspilled
            have hplainflag : flag = false := by
              rw [hloose] at hflag
              cases flag with
              | false => rfl
              | true => cases hflag
            refine hplain 0 x rfl (by rw [hplainflag]; rfl) rfl ?_
            intro m hm
            cases hm
            exact hloose
          · exact hrest x hx
        | replaced =>
          rw [assemble, List.take_append] at hx
          rcases List.mem_append.mp hx with hx | hx
          · exact hmask x (List.mem_of_mem_take hx)
          · apply hrest x
            rw [Fate.size, ← Nat.sub_sub]
            exact hx
        | dropped =>
          rw [assemble] at hx
          exact hrest x hx
      · intro x hx
        rw [Nat.sub_eq_zero_of_le hge, List.take_zero] at hx
        cases hx

/-- Where the limit is not reached, only what lies in a match is missing. -/
theorem Track.missing (ha : Interplay outer inner loose leadJ leadB mask.length)
    (hmask : mask ≠ []) (Q : α → Prop) {s : List α} (flags : List Bool)
    (h : Track outer inner loose leadJ leadB (s.map unit) pj pb pc met n e)
    (hlen : flags.length = s.length)
    (hclear : clear loose leadJ leadB limit met n flags (scan outer pj (s.map unit))
      (scan inner pb (s.map unit)) = true)
    (hmatch : ∀ (i : ℕ) (x : α), s[i]? = some x → (scan outer pj (s.map unit))[i]? ≠ some Mark.free ∨
      (scan inner pb (s.map unit))[i]? ≠ some Mark.free → Q x)
    (hfits : e + (assemble mask (fates outer inner pj pc (s.map unit)) s).length ≤ limit) :
    ∀ x ∈ s, x ∈ assemble mask (fates outer inner pj pc (s.map unit)) s ∨ Q x := by
  induction s generalizing pj pb pc met n e flags with
  | nil =>
    intro x hx
    cases hx
  | cons c s ih =>
    cases flags with
    | nil => cases hlen
    | cons flag flags =>
      obtain ⟨fate, mj, mb, pj', pb', pc', hfates, houter, hinner, -, hmissing, hdropped, hnext⟩ :=
        h.step ha
      rw [List.map_cons, houter, hinner] at hclear
      rw [List.map_cons, houter, hinner] at hmatch
      rw [List.map_cons, hfates] at hfits ⊢
      rw [clear, Bool.and_eq_true, Bool.or_eq_true, Bool.not_eq_true', decide_eq_true_eq] at hclear
      obtain ⟨hhere, hthere⟩ := hclear
      have hwritten := h.written
      have hspilled : spilled loose met mj mb = false := by
        cases hspilled : spilled loose met mj mb with
        | false => rfl
        | true =>
          have hlimit : limit ≤ n := by
            rcases hhere with hhere | hlimit
            · rw [exposed, hspilled] at hhere
              cases hhere
            · exact hlimit
          -- what is left over is written, and there is no room for it
          cases fate with
          | kept =>
            rw [assemble, List.length_cons] at hfits
            omega
          | replaced =>
            have hpos := List.length_pos_of_ne_nil hmask
            rw [assemble, List.length_append] at hfits
            omega
          | dropped =>
            have hnot := hdropped rfl
            rw [hspilled] at hnot
            cases hnot
      have hrest := ih flags (hnext hspilled) (Nat.succ.inj hlen) hthere
        fun i x hx hm => hmatch (i + 1) x hx hm
      have hQ : fate ≠ .kept → Q c := by
        intro hne
        refine hmatch 0 c rfl ?_
        rcases hmissing hne with hm | hm
        · exact Or.inl fun heq => hm (Option.some.inj heq)
        · exact Or.inr fun heq => hm (Option.some.inj heq)
      intro x hx
      cases fate with
      | kept =>
        rw [assemble] at hfits ⊢
        rcases List.mem_cons.mp hx with rfl | hx
        · exact Or.inl List.mem_cons_self
        · have hfits' : e + 1 + (assemble mask (fates outer inner pj' pc' (s.map unit)) s).length
              ≤ limit := by
            rw [List.length_cons] at hfits
            omega
          exact (hrest hfits' x hx).imp_left (List.mem_cons_of_mem c)
      | replaced =>
        rw [assemble] at hfits ⊢
        rcases List.mem_cons.mp hx with rfl | hx
        · exact Or.inr (hQ nofun)
        · have hfits' : e + mask.length
              + (assemble mask (fates outer inner pj' pc' (s.map unit)) s).length ≤ limit := by
            rw [List.length_append] at hfits
            omega
          exact (hrest hfits' x hx).imp_left (List.mem_append_right mask)
      | dropped =>
        rw [assemble] at hfits ⊢
        rcases List.mem_cons.mp hx with rfl | hx
        · exact Or.inr (hQ nofun)
        · exact hrest hfits x hx

end Track

end Text.Overlap
