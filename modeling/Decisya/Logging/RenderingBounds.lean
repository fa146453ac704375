import Decisya.Logging.MaskingProcessor

/-!
# How much is rendered

The masking of a record ends, and every moment of it is bounded: the getters called so far, the
objects being rendered inside each other, and the members written of each of them.
-/

namespace Decisya.Logging.Rendering

open Text

set_option autoImplicit false

variable {Name Obj : Type} {types : Reflection Name} {objects : Objects Name Obj}

/-! ## The trace is written and never read -/

section Trace

def Run.after (run : Run) (past : List Event) : Run := { run with trace := run.trace ++ past }

def later {α : Type} (past : List Event) (outcome : Outcome α) : Outcome α :=
  (outcome.1, outcome.2.after past)

variable {α β : Type} (past : List Event)

theorem after_log (run : Run) (event : Event) :
    (run.after past).log event = (run.log event).after past := rfl

theorem after_tryConsume (run : Run) :
    (run.after past).tryConsume = (run.tryConsume.1, run.tryConsume.2.after past) := by
  obtain ⟨budget, trace⟩ := run
  cases budget with
  | zero => rfl
  | succ n => rfl

theorem andThen_after {step : Run → Option (Outcome α)} {next : α → Run → Option (Outcome β)}
    {run : Run} (hstep : step (run.after past) = (step run).map (later past))
    (hnext : ∀ a run, next a (run.after past) = (next a run).map (later past)) :
    andThen (step (run.after past)) next = (andThen (step run) next).map (later past) := by
  rw [hstep]
  cases step run with
  | none => rfl
  | some outcome =>
    obtain ⟨result, run'⟩ := outcome
    cases result with
    | none => rfl
    | some a => exact hnext a run'

variable {next : Boxed Obj → Run → Option (Outcome (MaskResult Obj))}
variable (hnext : ∀ value run, next value (run.after past) = (next value run).map (later past))
include hnext

theorem renderMember_after (o : Obj) (property : Property Name) (run : Run) :
    renderMember types objects next o property (run.after past) =
      (renderMember types objects next o property run).map (later past) := by
  unfold renderMember
  split
  · rfl
  · split
    · rfl
    · rename_i raw _
      rw [after_log]
      exact andThen_after past (hnext raw (run.log .getter)) fun _ _ => rfl

theorem renderProperties_after (o : Obj) (properties : List (Property Name)) (written : ℕ)
    (builder : Utf16) (run : Run) :
    renderProperties types objects next o properties written builder (run.after past) =
      (renderProperties types objects next o properties written builder run).map (later past) := by
  induction properties generalizing written builder run with
  | nil => rfl
  | cons property properties ih =>
    unfold renderProperties
    split
    · rfl
    · rw [after_tryConsume]
      obtain ⟨consumed, run'⟩ := run.tryConsume
      cases consumed with
      | false => rfl
      | true =>
        dsimp only
        rw [after_log]
        apply andThen_after past (renderMember_after past hnext o property (run'.log .member))
        intro text run
        exact ih _ _ run

theorem renderObject_after (o : Obj) (type : Ty Name) (run : Run) :
    renderObject types objects next o type (run.after past) =
      (renderObject types objects next o type run).map (later past) := by
  unfold renderObject
  rw [after_log]
  exact andThen_after past (renderProperties_after past hnext o _ _ _ (run.log .opened))
    fun _ _ => rfl

variable [DecidableEq Name]

theorem processObject_after (fuel depth : ℕ) (o : Obj) (run : Run) :
    processObject types objects fuel next depth o (run.after past) =
      (processObject types objects fuel next depth o run).map (later past) := by
  unfold processObject
  dsimp only
  split
  · rfl
  · split
    · rfl
    · split
      · rfl
      · split
        · split
          · rfl
          · split
            · rfl
            · rfl
        · cases types.needsProcessorRendering fuel (objects.typeOf o) with
          | none => rfl
          | some needed =>
            change (if needed = false then _ else _) = Option.map _ (if needed = false then _ else _)
            split
            · rfl
            · split
              · rfl
              · rw [after_tryConsume]
                obtain ⟨consumed, run'⟩ := run.tryConsume
                cases consumed with
                | false => rfl
                | true =>
                  exact andThen_after past (renderObject_after past hnext o _ run')
                    fun _ _ => rfl

end Trace

section Erasure
variable [DecidableEq Name]

theorem processAny_after (past : List Event) (fuel depth : ℕ) (value : Boxed Obj) (run : Run) :
    processAny types objects fuel depth value (run.after past) =
      (processAny types objects fuel depth value run).map (later past) := by
  induction fuel generalizing depth value run with
  | zero => rfl
  | succ fuel ih =>
    cases value with
    | null => rfl
    | text s => rfl
    | object o => exact processObject_after past (ih (depth + 1)) (fuel + 1) depth o run

theorem processKeyed_after (past : List Event) (fuel : ℕ) (key : Utf16) (value : Boxed Obj)
    (run : Run) :
    processKeyed types objects fuel key value (run.after past) =
      (processKeyed types objects fuel key value run).map (later past) := by
  unfold processKeyed
  split
  · exact processAny_after past fuel 0 value run
  · split
    · rfl
    · rfl
    · rfl

end Erasure

/-! ## The masking ends -/

theorem settles_andThen {α β : Type} {bound : ℕ} {step : ℕ → Option (Outcome α)}
    {next : ℕ → α → Run → Option (Outcome β)} (hstep : Fuel.Settles bound step)
    (hnext : ∀ a run, Fuel.Settles bound fun fuel => next fuel a run) :
    Fuel.Settles bound fun fuel => andThen (step fuel) (next fuel) := by
  apply hstep.bind
  intro outcome
  obtain ⟨result, run⟩ := outcome
  cases result with
  | none => exact Fuel.settles_some (none, run)
  | some a => exact hnext a run

section Settles
variable {bound : ℕ} {next : ℕ → Boxed Obj → Run → Option (Outcome (MaskResult Obj))}
variable (hnext : ∀ value run, Fuel.Settles bound fun fuel => next fuel value run)
include hnext

theorem settles_renderMember (o : Obj) (property : Property Name) (run : Run) :
    Fuel.Settles bound fun fuel => renderMember types objects (next fuel) o property run := by
  unfold renderMember
  refine Fuel.settles_ite (fun _ => Fuel.settles_some _) fun _ => ?_
  cases objects.getValue o property with
  | none => exact Fuel.settles_some _
  | some raw => exact settles_andThen (hnext raw (run.log .getter)) fun _ _ => Fuel.settles_some _

theorem settles_renderProperties (o : Obj) (properties : List (Property Name)) (written : ℕ)
    (builder : Utf16) (run : Run) :
    Fuel.Settles bound fun fuel =>
      renderProperties types objects (next fuel) o properties written builder run := by
  induction properties generalizing written builder run with
  | nil => exact Fuel.settles_some _
  | cons property properties ih =>
    unfold renderProperties
    refine Fuel.settles_ite (fun _ => Fuel.settles_some _) fun _ => ?_
    obtain ⟨consumed, run'⟩ := run.tryConsume
    cases consumed with
    | false => exact Fuel.settles_some _
    | true =>
      apply settles_andThen (settles_renderMember hnext o property (run'.log .member))
      intro text run
      exact ih _ _ run

theorem settles_renderObject (o : Obj) (type : Ty Name) (run : Run) :
    Fuel.Settles bound fun fuel => renderObject types objects (next fuel) o type run :=
  settles_andThen (settles_renderProperties hnext o _ _ _ (run.log .opened)) fun _ _ =>
    Fuel.settles_some _

end Settles

section Ends
variable [DecidableEq Name]

/-- Below the greatest depth no object is rendered, so nothing is asked of the level after it. -/
theorem settles_processObject {bound depth : ℕ} (hbound : maxGraphDepth + 1 ≤ bound)
    {next : ℕ → Boxed Obj → Run → Option (Outcome (MaskResult Obj))}
    (hnext : depth ≤ maxRenderDepth →
      ∀ value run, Fuel.Settles bound fun fuel => next fuel value run) (o : Obj) (run : Run) :
    Fuel.Settles bound fun fuel =>
      processObject types objects (fuel + 1) (next fuel) depth o run := by
  unfold processObject
  dsimp only
  refine Fuel.settles_ite (fun _ => Fuel.settles_some _) fun _ => ?_
  cases objects.uri o with
  | some uri => exact Fuel.settles_some _
  | none =>
    refine Fuel.settles_ite (fun _ => Fuel.settles_some _) fun _ => ?_
    refine Fuel.settles_ite (fun _ => ?_) fun _ => ?_
    · refine Fuel.settles_ite (fun _ => Fuel.settles_some _) fun _ => ?_
      split
      · exact Fuel.settles_some _
      · exact Fuel.settles_some _
    · have hneeded := (types.settles_needsProcessorRendering (objects.typeOf o)).mono
        (Nat.succ_le_succ hbound)
      apply hneeded.comp_succ.bind
      intro needed
      refine Fuel.settles_ite (fun _ => Fuel.settles_some _) fun _ => ?_
      refine Fuel.settles_ite (fun _ => Fuel.settles_some _) fun hrender => ?_
      rw [not_or, Nat.not_lt] at hrender
      obtain ⟨consumed, run'⟩ := run.tryConsume
      cases consumed with
      | false => exact Fuel.settles_some _
      | true =>
        exact settles_andThen (settles_renderObject (hnext hrender.2) o _ run') fun _ _ =>
          Fuel.settles_some _

theorem settles_processAny_succ {bound depth : ℕ} (hbound : maxGraphDepth + 1 ≤ bound)
    (hnext : depth ≤ maxRenderDepth → ∀ value run, Fuel.Settles bound fun fuel =>
      processAny types objects fuel (depth + 1) value run) (value : Boxed Obj) (run : Run) :
    Fuel.Settles (bound + 1) fun fuel => processAny types objects fuel depth value run := by
  cases value with
  | null => exact (Fuel.settles_some _).succ fun _ => rfl
  | text s => exact (Fuel.settles_some _).succ fun _ => rfl
  | object o => exact (settles_processObject hbound hnext o run).succ fun _ => rfl

/-- A level of `ProcessAny` takes one unit of fuel, and the analysis of a type takes the rest. -/
theorem settles_processAny {levels depth : ℕ} (hdepth : maxRenderDepth < depth + levels)
    (value : Boxed Obj) (run : Run) :
    Fuel.Settles (levels + maxGraphDepth + 2) fun fuel =>
      processAny types objects fuel depth value run := by
  induction levels generalizing depth value run with
  | zero =>
    apply settles_processAny_succ (by omega)
    intro hle
    omega
  | succ levels ih =>
    rw [show levels + 1 + maxGraphDepth + 2 = levels + maxGraphDepth + 2 + 1 by omega]
    apply settles_processAny_succ (by omega)
    intro _ value run
    exact ih (by omega) value run

theorem settles_processKeyed (key : Utf16) (value : Boxed Obj) (run : Run) :
    Fuel.Settles (maxRenderDepth + maxGraphDepth + 3) fun fuel =>
      processKeyed types objects fuel key value run := by
  unfold processKeyed
  refine Fuel.settles_ite (fun _ => ?_) fun _ => ?_
  · have hany : Fuel.Settles (maxRenderDepth + 1 + maxGraphDepth + 2) fun fuel =>
        processAny types objects fuel 0 value run := settles_processAny (by omega) value run
    apply hany.mono
    omega
  · split
    · exact Fuel.settles_some _
    · exact Fuel.settles_some _
    · exact Fuel.settles_some _

end Ends

/-! ## Every moment of a run is bounded -/

/-- The objects being rendered after these events, the innermost one first, with the members
begun of each. -/
def frames : List Event → List ℕ
  | [] => []
  | .opened :: past => 0 :: frames past
  | .member :: past =>
    match frames past with
    | [] => []
    | written :: outer => (written + 1) :: outer
  | .getter :: past => frames past
  | .closed :: past => (frames past).tail
  | .caught :: _ => []

def AtMost (written : List ℕ) : Prop :=
  written.length ≤ maxRenderDepth + 1 ∧ ∀ n ∈ written, n ≤ maxMembersPerObject

def Bounded (trace : List Event) : Prop := ∀ moment, moment <:+ trace → AtMost (frames moment)

def getters (run : Run) : ℕ := run.trace.count .getter

theorem bounded_nil : Bounded [] := by
  intro moment hmoment
  rw [List.suffix_nil] at hmoment
  rw [hmoment]
  exact ⟨Nat.zero_le _, fun _ hw => absurd hw List.not_mem_nil⟩

theorem Bounded.cons {trace : List Event} (h : Bounded trace) {event : Event}
    (hframes : AtMost (frames (event :: trace))) : Bounded (event :: trace) := by
  intro moment hmoment
  rcases List.suffix_cons_iff.mp hmoment with rfl | hpast
  · exact hframes
  · exact h moment hpast

theorem Bounded.now {trace : List Event} (h : Bounded trace) : AtMost (frames trace) :=
  h trace (List.suffix_refl trace)

/-- What may have happened: `extra` is how many getters were called that the budget was not
charged for. An outcome that is no exception leaves the objects that were being rendered. -/
structure Kept {α : Type} (extra : ℕ) (run : Run) (outcome : Outcome α) : Prop where
  spent : getters outcome.2 + outcome.2.budget ≤ getters run + run.budget + extra
  bounded : Bounded outcome.2.trace
  frames : outcome.1.isSome = true → frames outcome.2.trace = frames run.trace

theorem kept_same {α : Type} {run : Run} (h : Bounded run.trace) (result : Option α) (extra : ℕ) :
    Kept extra run (result, run) :=
  ⟨Nat.le_add_right _ _, h, fun _ => rfl⟩

/-- `next` keeps the bounds where this many objects are being rendered. -/
def Keeps (depth : ℕ) (next : Boxed Obj → Run → Option (Outcome (MaskResult Obj))) : Prop :=
  ∀ value run outcome, (frames run.trace).length = depth → Bounded run.trace →
    next value run = some outcome → Kept 0 run outcome

theorem andThen_eq_some {α β : Type} {step : Option (Outcome α)}
    {next : α → Run → Option (Outcome β)} {outcome : Outcome β}
    (h : andThen step next = some outcome) :
    ∃ first, step = some first ∧ ((first.1 = none ∧ outcome = (none, first.2)) ∨
      ∃ a, first.1 = some a ∧ next a first.2 = some outcome) := by
  obtain ⟨⟨result, run⟩, hfirst, hrest⟩ := Option.bind_eq_some_iff.mp h
  refine ⟨(result, run), hfirst, ?_⟩
  cases result with
  | none =>
    cases hrest
    exact Or.inl ⟨rfl, rfl⟩
  | some a => exact Or.inr ⟨a, rfl, hrest⟩

theorem tryConsume_eq {run run' : Run} {consumed : Bool}
    (h : run.tryConsume = (consumed, run')) :
    run'.trace = run.trace ∧ getters run' = getters run ∧
      run'.budget + (if consumed then 1 else 0) = run.budget := by
  obtain ⟨budget, trace⟩ := run
  cases budget with
  | zero =>
    cases h
    exact ⟨rfl, rfl, rfl⟩
  | succ n =>
    cases h
    exact ⟨rfl, rfl, rfl⟩

theorem Kept.andThen {α β : Type} {extra : ℕ} {run : Run} {step : Option (Outcome α)}
    {next : α → Run → Option (Outcome β)} {outcome : Outcome β}
    (hstep : ∀ first, step = some first → Kept extra run first)
    (hnext : ∀ a run', Bounded run'.trace → next a run' = some outcome → Kept 0 run' outcome)
    (h : andThen step next = some outcome) : Kept extra run outcome := by
  obtain ⟨first, hfirst, hrest⟩ := andThen_eq_some h
  have hkept := hstep first hfirst
  have hspent := hkept.spent
  rcases hrest with ⟨_, rfl⟩ | ⟨a, ha, hout⟩
  · exact ⟨hspent, hkept.bounded, fun hsome => absurd hsome Bool.false_ne_true⟩
  · have hlast := hnext a first.2 hkept.bounded hout
    have hle := hlast.spent
    refine ⟨by omega, hlast.bounded, fun hsome => ?_⟩
    rw [hlast.frames hsome]
    apply hkept.frames
    rw [ha]
    rfl

theorem Kept.of_tryConsume {α : Type} {run run' : Run} {consumed : Bool} {outcome : Outcome α}
    (h : Kept 0 run' outcome) (hconsume : run.tryConsume = (consumed, run')) :
    Kept 0 run outcome := by
  obtain ⟨htrace, hgetters, hbudget⟩ := tryConsume_eq hconsume
  have hspent := h.spent
  refine ⟨by omega, h.bounded, fun hsome => ?_⟩
  rw [h.frames hsome, htrace]

theorem getters_log_getter (run : Run) : getters (run.log .getter) = getters run + 1 :=
  List.count_cons_self

theorem getters_log {event : Event} (h : event ≠ .getter) (run : Run) :
    getters (run.log event) = getters run :=
  List.count_cons_of_ne h

section Bounds
variable {depth : ℕ} {next : Boxed Obj → Run → Option (Outcome (MaskResult Obj))}
variable (hnext : Keeps (depth + 1) next)
include hnext

theorem kept_renderMember {o : Obj} {property : Property Name} {run : Run}
    {outcome : Outcome Utf16} (hdepth : (frames run.trace).length = depth + 1)
    (hbounded : Bounded run.trace)
    (h : renderMember types objects next o property run = some outcome) : Kept 1 run outcome := by
  unfold renderMember at h
  have hcalled : Bounded (run.log .getter).trace := hbounded.cons hbounded.now
  have hspent := getters_log_getter run
  split at h
  · cases h
    exact kept_same hbounded _ 1
  · split at h
    · cases h
      refine ⟨?_, hcalled, fun _ => rfl⟩
      rw [hspent]
      change getters run + 1 + run.budget ≤ _
      omega
    · rename_i raw _
      have hkept : Kept 0 (run.log .getter) outcome := by
        have hfirst : ∀ first, next raw (run.log .getter) = some first →
            Kept 0 (run.log .getter) first :=
          fun first hfirst => hnext raw (run.log .getter) first hdepth hcalled hfirst
        apply Kept.andThen hfirst _ h
        intro result run' hrun' hout
        cases hout
        exact kept_same hrun' _ 0
      have hle := hkept.spent
      rw [hspent] at hle
      change _ ≤ getters run + 1 + run.budget + 0 at hle
      exact ⟨by omega, hkept.bounded, hkept.frames⟩

/-- The loop keeps the objects around the one whose members it writes. -/
theorem kept_renderProperties {o : Obj} {properties : List (Property Name)} {written : ℕ}
    {builder : Utf16} {run : Run} {outer : List ℕ} {outcome : Outcome (Utf16 × ℕ × Bool)}
    (houter : frames run.trace = written :: outer) (hdepth : outer.length = depth)
    (hbounded : Bounded run.trace)
    (h : renderProperties types objects next o properties written builder run = some outcome) :
    getters outcome.2 + outcome.2.budget ≤ getters run + run.budget ∧ Bounded outcome.2.trace ∧
      (outcome.1.isSome = true → ∃ n, frames outcome.2.trace = n :: outer) := by
  induction properties generalizing written builder run with
  | nil =>
    cases h
    exact ⟨Nat.le_refl _, hbounded, fun _ => ⟨written, houter⟩⟩
  | cons property properties ih =>
    unfold renderProperties at h
    split at h
    · cases h
      exact ⟨Nat.le_refl _, hbounded, fun _ => ⟨written, houter⟩⟩
    · rename_i hwritten
      split at h
      · rename_i run' hconsume
        cases h
        obtain ⟨htrace, hgetters, hbudget⟩ := tryConsume_eq hconsume
        refine ⟨?_, htrace ▸ hbounded, fun _ => ⟨written, by rw [htrace, houter]⟩⟩
        dsimp only
        omega
      · rename_i run' hconsume
        obtain ⟨htrace, hgetters, hbudget⟩ := tryConsume_eq hconsume
        have hsame : getters (run'.log .member) = getters run :=
          (getters_log (by decide) run').trans hgetters
        rw [if_pos rfl] at hbudget
        have hmember : frames (run'.log .member).trace = (written + 1) :: outer := by
          change frames (.member :: run'.trace) = _
          rw [frames, htrace, houter]
        have hlength : (frames (run'.log .member).trace).length = depth + 1 := by
          rw [hmember, List.length_cons, hdepth]
        have hbegun : Bounded (run'.log .member).trace := by
          have hnow := hbounded.now
          rw [houter] at hnow
          apply Bounded.cons (htrace ▸ hbounded)
          change AtMost (frames (run'.log .member).trace)
          rw [hmember]
          refine ⟨hnow.1, fun n hn => ?_⟩
          rcases List.mem_cons.mp hn with rfl | hn
          · omega
          · exact hnow.2 n (List.mem_cons_of_mem written hn)
        obtain ⟨first, hfirst, hrest⟩ := andThen_eq_some h
        have hkept := kept_renderMember hnext hlength hbegun hfirst
        have hle := hkept.spent
        rw [hsame] at hle
        change _ ≤ getters run + run'.budget + 1 at hle
        rcases hrest with ⟨_, rfl⟩ | ⟨text, htext, hloop⟩
        · refine ⟨?_, hkept.bounded, fun hsome => absurd hsome Bool.false_ne_true⟩
          dsimp only
          omega
        · have hsome : first.1.isSome = true := by
            rw [htext]
            rfl
          have hframes := (hkept.frames hsome).trans hmember
          obtain ⟨hspent, hrest⟩ := ih hframes hkept.bounded hloop
          exact ⟨by omega, hrest⟩

theorem kept_renderObject (hle : depth ≤ maxRenderDepth) {o : Obj} {type : Ty Name} {run : Run}
    {outcome : Outcome Utf16} (hdepth : (frames run.trace).length = depth)
    (hbounded : Bounded run.trace)
    (h : renderObject types objects next o type run = some outcome) : Kept 0 run outcome := by
  unfold renderObject at h
  have hopened : frames (run.log .opened).trace = 0 :: frames run.trace := rfl
  have hbegun : Bounded (run.log .opened).trace := by
    apply hbounded.cons
    refine ⟨?_, fun n hn => ?_⟩
    · change (frames run.trace).length + 1 ≤ _
      omega
    · rcases List.mem_cons.mp hn with rfl | hn
      · exact Nat.zero_le _
      · exact hbounded.now.2 n hn
  have hsame : getters (run.log .opened) = getters run := getters_log (by decide) run
  obtain ⟨first, hfirst, hrest⟩ := andThen_eq_some h
  obtain ⟨hspent, hkept, hframes⟩ := kept_renderProperties hnext hopened hdepth hbegun hfirst
  rw [hsame] at hspent
  rcases hrest with ⟨_, rfl⟩ | ⟨loop, hloop, hout⟩
  · exact ⟨hspent, hkept, fun hsome => absurd hsome Bool.false_ne_true⟩
  · cases hout
    have hsome : first.1.isSome = true := by
      rw [hloop]
      rfl
    obtain ⟨n, hn⟩ := hframes hsome
    have hclosed : frames (first.2.log .closed).trace = frames run.trace := by
      change (frames first.2.trace).tail = _
      rw [hn]
      rfl
    refine ⟨?_, ?_, fun _ => hclosed⟩
    · change getters (first.2.log .closed) + first.2.budget ≤ _
      rw [getters_log (by decide)]
      exact hspent
    · apply hkept.cons
      change AtMost (frames (first.2.log .closed).trace)
      rw [hclosed]
      exact hbounded.now

end Bounds

theorem kept_processObject [DecidableEq Name] {fuel depth : ℕ}
    {next : Boxed Obj → Run → Option (Outcome (MaskResult Obj))} (hnext : Keeps (depth + 1) next)
    {o : Obj} {run : Run} {outcome : Outcome (MaskResult Obj)}
    (hdepth : (frames run.trace).length = depth) (hbounded : Bounded run.trace)
    (h : processObject types objects fuel next depth o run = some outcome) :
    Kept 0 run outcome := by
  unfold processObject at h
  dsimp only at h
  split at h
  · cases h
    exact kept_same hbounded _ 0
  · split at h
    · cases h
      exact kept_same hbounded _ 0
    · split at h
      · cases h
        exact kept_same hbounded _ 0
      · split at h
        · split at h
          · cases h
            exact kept_same hbounded _ 0
          · split at h
            · cases h
              exact kept_same hbounded _ 0
            · cases h
              exact kept_same hbounded _ 0
        · obtain ⟨needed, _, h⟩ := Option.bind_eq_some_iff.mp h
          split at h
          · cases h
            exact kept_same hbounded _ 0
          · split at h
            · cases h
              exact kept_same hbounded _ 0
            · rename_i hrender
              rw [not_or, Nat.not_lt] at hrender
              split at h
              · rename_i run' hconsume
                cases h
                have hsame := (tryConsume_eq hconsume).1
                exact (kept_same (hsame ▸ hbounded) _ 0).of_tryConsume hconsume
              · rename_i run' hconsume
                have hsame := (tryConsume_eq hconsume).1
                rw [← hsame] at hdepth hbounded
                apply Kept.of_tryConsume _ hconsume
                apply Kept.andThen (fun first hfirst =>
                  kept_renderObject hnext hrender.2 hdepth hbounded hfirst) _ h
                intro text run'' hrun'' hout
                cases hout
                exact kept_same hrun'' _ 0

theorem keeps_processAny [DecidableEq Name] (fuel depth : ℕ) :
    Keeps depth (processAny types objects fuel depth) := by
  induction fuel generalizing depth with
  | zero =>
    intro value run outcome _ _ h
    cases h
  | succ fuel ih =>
    intro value run outcome hdepth hbounded h
    cases value with
    | null =>
      cases h
      exact kept_same hbounded _ 0
    | text s =>
      cases h
      exact kept_same hbounded _ 0
    | object o => exact kept_processObject (ih (depth + 1)) hdepth hbounded h

/-! ## A record -/

section Record
variable [DecidableEq Name]

/-- Enough fuel for every value. -/
def enoughFuel : ℕ := maxRenderDepth + maxGraphDepth + 3

theorem kept_processKeyed {fuel : ℕ} {key : Utf16} {value : Boxed Obj} {run : Run}
    {outcome : Outcome (MaskResult Obj)} (hidle : frames run.trace = [])
    (hbounded : Bounded run.trace)
    (h : processKeyed types objects fuel key value run = some outcome) : Kept 0 run outcome := by
  unfold processKeyed at h
  split at h
  · have hdepth : (frames run.trace).length = 0 := by
      rw [hidle]
      rfl
    exact keeps_processAny fuel 0 value run outcome hdepth hbounded h
  · split at h
    · cases h
      exact kept_same hbounded _ 0
    · cases h
      exact kept_same hbounded _ 0
    · cases h
      exact kept_same hbounded _ 0

theorem valueMasking_processKeyed {fuel budget : ℕ} {key : Utf16} {value : Boxed Obj}
    {past : List Event} {outcome : Outcome (MaskResult Obj)}
    (h : processKeyed types objects fuel key value ⟨budget, past⟩ = some outcome) :
    (valueMasking types objects fuel).processKeyed key value budget =
      (outcome.1.map fun result => (asLogValue objects result.value, result.masked),
        outcome.2.budget) := by
  have herased : processKeyed types objects fuel key value ⟨budget, past⟩ =
      (processKeyed types objects fuel key value ⟨budget, []⟩).map (later past) :=
    processKeyed_after past fuel key value ⟨budget, []⟩
  rw [h] at herased
  obtain ⟨erased, hrun, hlater⟩ := Option.map_eq_some_iff.mp herased.symm
  unfold valueMasking
  dsimp only
  rw [hrun, ← hlater]
  rfl

theorem exists_processKeyed (types : Reflection Name) (objects : Objects Name Obj) (key : Utf16)
    (value : Boxed Obj) (run : Run) : ∃ outcome, ∀ fuel, enoughFuel ≤ fuel →
      processKeyed types objects fuel key value run = some outcome :=
  settles_processKeyed key value run

theorem valueMasking_eq {fuel : ℕ} (hfuel : enoughFuel ≤ fuel) :
    valueMasking types objects fuel = valueMasking types objects enoughFuel := by
  have hkeyed : ∀ key value budget, processKeyed types objects fuel key value ⟨budget, []⟩ =
      processKeyed types objects enoughFuel key value ⟨budget, []⟩ := by
    intro key value budget
    obtain ⟨outcome, houtcome⟩ := exists_processKeyed types objects key value ⟨budget, []⟩
    rw [houtcome fuel hfuel, houtcome enoughFuel (Nat.le_refl _)]
  unfold valueMasking
  congr
  funext key value budget
  rw [hkeyed]

theorem settles_processPair (p : Progress) (pair : Pair (Boxed Obj)) (trace : List Event) :
    Fuel.Settles enoughFuel fun fuel => processPair types objects fuel p pair trace := by
  obtain ⟨outcome, houtcome⟩ := exists_processKeyed types objects (pair.1.getD []) pair.2
    ⟨p.budget, trace⟩
  by_cases hskip : pair.1.getD [] = originalFormatKey ∨ p.seen.contains (pair.1.getD []) = true
  · refine ⟨((valueMasking types objects enoughFuel).processPair p pair, trace), ?_⟩
    intro fuel hfuel
    change processPair types objects fuel p pair trace = _
    unfold processPair
    dsimp only
    rw [if_pos hskip, valueMasking_eq hfuel]
  · refine ⟨((valueMasking types objects enoughFuel).processPair p pair,
      if outcome.1.isNone then .caught :: outcome.2.trace else outcome.2.trace), ?_⟩
    intro fuel hfuel
    change processPair types objects fuel p pair trace = _
    unfold processPair
    dsimp only
    rw [if_neg hskip, houtcome fuel hfuel, valueMasking_eq hfuel]
    rfl

theorem settles_processItems (items : List (Option (Pair (Boxed Obj)))) (p : Progress)
    (trace : List Event) :
    Fuel.Settles enoughFuel fun fuel => processItems types objects fuel items p trace := by
  induction items generalizing p trace with
  | nil => exact Fuel.settles_some _
  | cons item items ih =>
    cases item with
    | none => exact Fuel.settles_some _
    | some pair =>
      apply (settles_processPair p pair trace).bind
      intro r
      exact ih r.1 r.2

theorem settles_process (state : LogState (Boxed Obj)) :
    Fuel.Settles enoughFuel fun fuel => process types objects fuel state := by
  cases state with
  | unstructured => exact Fuel.settles_some _
  | uncountable => exact Fuel.settles_some _
  | pairs items => exact (settles_processItems items _ []).map _

/-- The masking is that of the values of this kind. -/
theorem masked_processItems {fuel : ℕ} {items : List (Option (Pair (Boxed Obj)))} {p : Progress}
    {trace : List Event} {r : Option Progress × List Event}
    (h : processItems types objects fuel items p trace = some r) :
    r.1 = (valueMasking types objects fuel).processItems items p := by
  induction items generalizing p trace with
  | nil =>
    cases h
    rfl
  | cons item items ih =>
    cases item with
    | none =>
      cases h
      rfl
    | some pair =>
      obtain ⟨first, hfirst, hrest⟩ := Option.bind_eq_some_iff.mp h
      have hprogress : first.1 = (valueMasking types objects fuel).processPair p pair := by
        unfold processPair at hfirst
        dsimp only at hfirst
        split at hfirst
        · cases hfirst
          rfl
        · obtain ⟨outcome, _, rfl⟩ := Option.map_eq_some_iff.mp hfirst
          rfl
      rw [ih hrest, hprogress]
      rfl

theorem masked_process {fuel : ℕ} {state : LogState (Boxed Obj)} {record : Record}
    (h : process types objects fuel state = some record) :
    record.masked = (valueMasking types objects fuel).process state := by
  cases state with
  | unstructured =>
    cases h
    rfl
  | uncountable =>
    cases h
    rfl
  | pairs items =>
    obtain ⟨r, hr, rfl⟩ := Option.map_eq_some_iff.mp h
    change r.1.map ValueMasking.maskedState = _
    rw [masked_processItems hr]
    rfl

/-- Between two values nothing is being rendered. -/
structure Idle (p : Progress) (trace : List Event) : Prop where
  spent : trace.count .getter + p.budget ≤ maxRenderedNodesPerRecord
  bounded : Bounded trace
  frames : frames trace = []

theorem budget_processPair (masking : ValueMasking (Boxed Obj)) (p : Progress)
    (pair : Pair (Boxed Obj)) :
    (masking.processPair p pair).budget =
      if pair.1.getD [] = originalFormatKey ∨ p.seen.contains (pair.1.getD []) = true then p.budget
      else (masking.processKeyed (pair.1.getD []) pair.2 p.budget).2 := by
  unfold ValueMasking.processPair
  dsimp only
  by_cases hformat : pair.1.getD [] = originalFormatKey
  · rw [if_pos hformat, if_pos (Or.inl hformat)]
  · rw [if_neg hformat]
    by_cases hseen : pair.1.getD [] ∈ p.seen
    · rw [if_pos hseen, if_pos (Or.inr (List.contains_iff_mem.mpr hseen))]
    · have hcontains : ¬ p.seen.contains (pair.1.getD []) = true := fun h =>
        hseen (List.contains_iff_mem.mp h)
      rw [if_neg hseen, if_neg (not_or.mpr ⟨hformat, hcontains⟩)]

theorem idle_processPair {fuel : ℕ} {p : Progress} {pair : Pair (Boxed Obj)} {trace : List Event}
    {r : Progress × List Event} (hidle : Idle p trace)
    (h : processPair types objects fuel p pair trace = some r) : Idle r.1 r.2 := by
  have hbudget := budget_processPair (valueMasking types objects fuel) p pair
  unfold processPair at h
  dsimp only at h
  split at h
  · rename_i hskip
    cases h
    rw [if_pos hskip] at hbudget
    refine ⟨?_, hidle.bounded, hidle.frames⟩
    rw [hbudget]
    exact hidle.spent
  · rename_i hkey
    obtain ⟨outcome, houtcome, rfl⟩ := Option.map_eq_some_iff.mp h
    rw [if_neg hkey, valueMasking_processKeyed houtcome] at hbudget
    have hkept := kept_processKeyed hidle.frames hidle.bounded houtcome
    have hspent := hkept.spent
    change getters outcome.2 + _ ≤ trace.count .getter + p.budget + 0 at hspent
    have hstart := hidle.spent
    cases hresult : outcome.1 with
    | none =>
      refine ⟨?_, hkept.bounded.cons ?_, rfl⟩
      · change (Event.caught :: outcome.2.trace).count .getter + _ ≤ _
        rw [List.count_cons_of_ne (by decide), hbudget]
        exact hspent.trans hstart
      · exact ⟨Nat.zero_le _, fun _ hn => absurd hn List.not_mem_nil⟩
    | some result =>
      refine ⟨?_, hkept.bounded, ?_⟩
      · change outcome.2.trace.count .getter + _ ≤ _
        rw [hbudget]
        exact hspent.trans hstart
      · change Rendering.frames outcome.2.trace = []
        rw [hkept.frames (by rw [hresult]; rfl)]
        exact hidle.frames

theorem idle_processItems {fuel : ℕ} {items : List (Option (Pair (Boxed Obj)))} {p : Progress}
    {trace : List Event} {r : Option Progress × List Event} (hidle : Idle p trace)
    (h : processItems types objects fuel items p trace = some r) :
    r.2.count .getter ≤ maxRenderedNodesPerRecord ∧ Bounded r.2 := by
  have hnow : trace.count .getter ≤ maxRenderedNodesPerRecord := by
    have hspent := hidle.spent
    omega
  induction items generalizing p trace with
  | nil =>
    cases h
    exact ⟨hnow, hidle.bounded⟩
  | cons item items ih =>
    cases item with
    | none =>
      cases h
      exact ⟨hnow, hidle.bounded⟩
    | some pair =>
      obtain ⟨first, hfirst, hrest⟩ := Option.bind_eq_some_iff.mp h
      have hnext := idle_processPair hidle hfirst
      apply ih hnext hrest
      have hspent := hnext.spent
      omega

/-- Whatever the types, the objects and the state: the walk over every type graph ends, and so
does the masking of the record, which at every moment has called few getters and renders few
objects inside each other, with few members of each. -/
theorem process_bounded (types : Reflection Name) (objects : Objects Name Obj) :
    (∀ type depth visiting, ∃ needed, ∀ fuel, maxGraphDepth + 2 ≤ fuel →
      types.analyzeGraph fuel type depth visiting = some needed) ∧
    ∀ state, ∃ record, (∀ fuel, enoughFuel ≤ fuel →
        process types objects fuel state = some record) ∧
      record.trace.count .getter ≤ 256 ∧
      ∀ moment, moment <:+ record.trace → (frames moment).length ≤ maxRenderDepth + 1 ∧
        ∀ written ∈ frames moment, written ≤ 32 := by
  constructor
  · intro type depth visiting
    apply types.settles_analyzeGraph _ type visiting
    omega
  · intro state
    obtain ⟨record, hrecord⟩ : Fuel.Settles enoughFuel fun fuel =>
      process types objects fuel state := settles_process state
    refine ⟨record, hrecord, ?_⟩
    have hrun := hrecord enoughFuel (Nat.le_refl _)
    cases state with
    | unstructured =>
      cases hrun
      exact ⟨Nat.zero_le _, bounded_nil⟩
    | uncountable =>
      cases hrun
      exact ⟨Nat.zero_le _, bounded_nil⟩
    | pairs items =>
      obtain ⟨r, hr, rfl⟩ := Option.map_eq_some_iff.mp hrun
      exact idle_processItems ⟨Nat.le_refl _, bounded_nil, rfl⟩ hr

end Record

end Decisya.Logging.Rendering
