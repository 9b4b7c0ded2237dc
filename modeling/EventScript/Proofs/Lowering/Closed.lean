import EventScript.Proofs.Lowering.Direct
import EventScript.Proofs.Program.Nested

/-!
# Where the jumps of a script go

A jump of lowered steps goes to a label among these steps, or to an exit of what surrounds them
(`Closed`). Each shape places the labels that it hands down, so the exits that are left in the end
are those of the script, and a script has none.

Results:
* `closed_steps`: the steps of a statement of a body, by induction on `InBody`;
* `closed_scriptSteps`: the steps of a script, all of whose jumps stay in it;
* `leaves_scriptSteps`: control leaves behind the last item of a script.
-/

namespace EventScript

open Lowering Statement

namespace Item

/-- Where the item jumps to. -/
def target? : Item → Option String
  | .goto target => some target
  | .branch _ target => some target
  | _ => none

/-- Whether the item is an instruction or a label, and not data. -/
def isCode : Item → Bool
  | .raw .. | .data .. => false
  | _ => true

/-- The label that the item is. -/
def label? : Item → Option String
  | .label name _ => some name
  | _ => none

end Item

/-- The labels that steps place. -/
def places (steps : List Step) : List String :=
  (items steps).filterMap Item.label?

@[simp] theorem places_append (a b : List Step) : places (a ++ b) = places a ++ places b := by
  simp [places]

@[simp] theorem places_allocate (label : String) (later : List Step) :
    places (.allocate label :: later) = places later := rfl

@[simp] theorem places_place (w : Surroundings) (name : String) (later : List Step) :
    places (w.place name :: later) = name :: places later := rfl

@[simp] theorem places_goto (w : Surroundings) (name : String) (later : List Step) :
    places (w.goto name :: later) = places later := rfl

/-! ## Closed steps -/

/-- The steps add no data, and their jumps go to labels among them or to one of `exits`. -/
structure Closed (steps : List Step) (exits : String → Prop) : Prop where
  code : ∀ i ∈ items steps, i.isCode = true
  targets : ∀ i ∈ items steps, ∀ t, i.target? = some t → t ∈ places steps ∨ exits t

namespace Closed

variable {a b : List Step} {exits others : String → Prop}

theorem nil : Closed [] exits :=
  ⟨fun _ h => absurd h List.not_mem_nil, fun _ h => absurd h List.not_mem_nil⟩

/-- More exits are allowed. -/
theorem mono (h : Closed a exits) (hexits : ∀ t, exits t → others t) : Closed a others :=
  ⟨h.code, fun i hi t ht => (h.targets i hi t ht).imp_right (hexits t)⟩

/-- Steps in a row go where either part may. -/
theorem append (ha : Closed a exits) (hb : Closed b exits) : Closed (a ++ b) exits := by
  refine ⟨fun i hi => ?_, fun i hi t ht => ?_⟩
  · rcases List.mem_append.mp (items_append a b ▸ hi) with hi | hi
    · exact ha.code i hi
    · exact hb.code i hi
  · rw [places_append, List.mem_append]
    rcases List.mem_append.mp (items_append a b ▸ hi) with hi | hi
    · exact (ha.targets i hi t ht).imp_left .inl
    · exact (hb.targets i hi t ht).imp_left .inr

/-- Steps may be looked at in parts, with the labels of all of them as exits. -/
theorem whole (h : Closed a fun t => t ∈ places a ∨ exits t) : Closed a exits :=
  ⟨h.code, fun i hi t ht => (h.targets i hi t ht).elim .inl id⟩

theorem allocate (label : String) (h : Closed a exits) : Closed (.allocate label :: a) exits :=
  ⟨h.code, h.targets⟩

/-- Labels that are handed out go nowhere. -/
theorem allocateAll (labels : List String) : Closed (labels.map .allocate) exits := by
  induction labels with
  | nil => exact .nil
  | cons label later ih => exact ih.allocate label

/-- An item of code goes to its target only. -/
theorem emit {i : Item} {owner : Span} (hcode : i.isCode = true)
    (ht : ∀ t, i.target? = some t → exits t) : Closed [.emit i owner] exits := by
  refine ⟨fun j hj => ?_, fun j hj t hjt => ?_⟩
  · rw [List.mem_singleton.mp hj]
    exact hcode
  · rw [List.mem_singleton.mp hj] at hjt
    exact .inr (ht t hjt)

/-- An instruction that does not jump. -/
theorem plain {i : Item} {owner : Span} (hcode : i.isCode = true) (ht : i.target? = none) :
    Closed [.emit i owner] exits :=
  emit hcode fun t h => absurd (ht.symm.trans h) (Option.some_ne_none t).symm

theorem fail (failure : LoweringFailure) : Closed [.fail failure] exits :=
  ⟨fun _ h => absurd h List.not_mem_nil, fun _ h => absurd h List.not_mem_nil⟩

/-- A label goes nowhere. -/
theorem place (w : Surroundings) (name : String) : Closed [w.place name] exits :=
  plain rfl rfl

theorem goto (w : Surroundings) {name : String} (h : exits name) : Closed [w.goto name] exits :=
  emit rfl fun t ht => by
    obtain rfl := Option.some.inj ht
    exact h

/-- What stands between two parts of a statement. -/
theorem away (w : Surroundings) {name : String} (h : exits name) (label : String) :
    Closed [w.goto name, w.place label] exits :=
  (goto w h).append (place w label)

theorem branch (w : Surroundings) (test : Test) {name : String} (h : exits name) :
    Closed [w.item (.branch test name)] exits :=
  emit rfl fun t ht => by
    obtain rfl := Option.some.inj ht
    exact h

end Closed

/-! ## Shapes -/

section Shapes

variable {w : Surroundings} {n : Nat} {condition : Condition} {inside : List Step}
  {exits : String → Prop}

/-- A condition goes to its target, and else to labels of its own. -/
theorem closed_condition (jumpWhen : Bool) {target : String} (h : exits target) :
    Closed (condition.steps w jumpWhen target n) exits := by
  induction condition generalizing jumpWhen target n exits with
  | test t => exact .branch w _ h
  | join l c r ihl ihr =>
    rw [Condition.steps]
    split
    · exact (ihl jumpWhen h).append (ihr jumpWhen h)
    · refine .whole ?_
      exact ((ihl _ (.inl (by simp))).allocate _ |>.append (ihr _ (.inr h))).append (.place w _)

/-- A part of a conditional goes to the end, and where its body goes. -/
theorem closed_part {last : Bool} {finish : String} (hfinish : exits finish)
    (hinside : Closed inside exits) :
    Closed (partSteps w n condition last finish inside) exits := by
  unfold partSteps
  split
  · exact (closed_condition false hfinish).append hinside
  · refine .whole ?_
    refine (((closed_condition false ?_).allocate _).append (hinside.mono fun _ => .inr)).append
      (.away w (.inr hfinish) _)
    exact .inl (by simp)

/-- The tests of a switch go to its bodies. -/
theorem closed_caseTests (operand : String) {keys : List (CaseLabel × String)}
    (h : ∀ key ∈ keys, exits key.2) : Closed (keys.flatMap (caseTestSteps w operand)) exits := by
  induction keys with
  | nil => exact .nil
  | cons key later ih =>
    obtain ⟨label, name⟩ := key
    rw [List.forall_mem_cons] at h
    rw [List.flatMap_cons]
    refine Closed.append ?_ (ih h.2)
    cases label with
    | value v => exact .branch w _ h.1
    | default => exact .nil

/-- Without a matching case, control goes to the default case or to the end. -/
theorem fallback_eq (finish : String) (keys : List (CaseLabel × String)) :
    fallback finish keys = finish ∨ ∃ key ∈ keys, fallback finish keys = key.2 := by
  induction keys generalizing finish with
  | nil => exact .inl rfl
  | cons key later ih =>
    obtain ⟨label, name⟩ := key
    cases label with
    | value v =>
      rcases ih finish with h | ⟨key, hkey, h⟩
      · exact .inl h
      · exact .inr ⟨key, List.mem_cons_of_mem _ hkey, h⟩
    | default =>
      rcases ih name with h | ⟨key, hkey, h⟩
      · exact .inr ⟨_, List.mem_cons_self, h⟩
      · exact .inr ⟨key, List.mem_cons_of_mem _ hkey, h⟩

end Shapes

/-! ## Statements -/

/-- The exits that jumps may take. -/
def Surroundings.Exit (w : Surroundings) (t : String) : Prop :=
  ∃ kind, w.exit kind = some t

/-- The exits of a loop are its end and its test. -/
theorem Surroundings.eq_or_eq_of_inLoop {w : Surroundings} {test finish t : String}
    (h : (w.inLoop test finish).Exit t) : t = finish ∨ t = test := by
  obtain ⟨kind, hkind⟩ := h
  cases kind with
  | leave => exact .inl (Option.some.inj hkind).symm
  | again => exact .inr (Option.some.inj hkind).symm

/-- The exits of a switch are its end and those around it. -/
theorem Surroundings.eq_or_exit_of_inSwitch {w : Surroundings} {finish t : String}
    (h : (w.inSwitch finish).Exit t) : t = finish ∨ w.Exit t := by
  obtain ⟨kind, hkind⟩ := h
  cases kind with
  | leave => exact .inl (Option.some.inj hkind).symm
  | again => exact .inr ⟨.again, hkind⟩

/-- The steps of a statement are closed up to the exits around it. -/
def ClosedUp (x : Statement) : Prop :=
  ∀ (w : Surroundings) (n : Nat), Closed (x.steps w n) w.Exit

section Lists

variable {w : Surroundings} {exits : String → Prop}

/-- A body goes where its statements go. -/
theorem closed_stepsAll {body : List Statement} (hbody : ∀ x ∈ body, ClosedUp x)
    (w : Surroundings) (n : Nat) : Closed (stepsAll w n body) w.Exit := by
  induction body generalizing n with
  | nil => exact .nil
  | cons x later ih =>
    rw [List.forall_mem_cons] at hbody
    exact (hbody.1 w n).append (ih hbody.2 _)

theorem closed_stepsElifs {parts : List (Guarded Statement)} {finish : String} (more : Bool)
    (hparts : ∀ p ∈ parts, ∀ x ∈ p.body.statements, ClosedUp x) (hfinish : exits finish)
    (hw : ∀ t, w.Exit t → exits t) (n : Nat) : Closed (stepsElifs w finish more n parts) exits := by
  induction parts generalizing n with
  | nil => exact .nil
  | cons p later ih =>
    rw [List.forall_mem_cons] at hparts
    exact (closed_part hfinish ((closed_stepsAll hparts.1 w _).mono hw)).append (ih hparts.2 _)

theorem closed_stepsCases {cases : List (Case Statement)} {finish : String} (names : List String)
    (hcases : ∀ c ∈ cases, ∀ x ∈ c.body.statements, ClosedUp x) (hfinish : exits finish)
    (hw : ∀ t, w.Exit t → exits t) (n : Nat) :
    Closed (stepsCases w finish n names cases) exits := by
  induction cases generalizing n names with
  | nil => cases names <;> exact .nil
  | cons c later ih =>
    rw [List.forall_mem_cons] at hcases
    cases names with
    | nil => exact .nil
    | cons name names =>
      have hbody := (closed_stepsAll hcases.1 w n).mono hw
      exact ((Closed.append (.place w name) hbody).append (.goto w hfinish)).append
        (ih names hcases.2 _)

/-- The label of each case is placed in front of its body. -/
theorem mem_places_stepsCases {cases : List (Case Statement)} (finish : String)
    {names : List String} (hnames : names.length = cases.length) (n : Nat) {name : String}
    (h : name ∈ names) : name ∈ places (stepsCases w finish n names cases) := by
  induction cases generalizing n names with
  | nil =>
    obtain rfl := List.length_eq_zero_iff.mp hnames
    exact nomatch h
  | cons c later ih =>
    obtain ⟨first, names, rfl⟩ := List.exists_cons_of_length_eq_add_one hnames
    rw [stepsCases, places_append, List.mem_append]
    rcases List.mem_cons.mp h with rfl | h
    · exact .inl (by simp)
    · exact .inr (ih (Nat.succ.inj hnames) _ h)

end Lists

/-- **Jumps stay where the construct around them is.** -/
theorem closed_steps {x : Statement} (hx : InBody x) : ClosedUp x := by
  induction hx with
  | block _ ih => exact fun w n => closed_stepsAll ih w n
  | command => exact fun w n => .plain rfl rfl
  | @conditional condition body bodySpan _ elifs _ _ ihbody ihelifs =>
    intro w n
    have hparts : ∀ p ∈ (⟨condition, ⟨body, bodySpan⟩⟩ :: elifs : List (Guarded Statement)),
        ∀ x ∈ p.body.statements, ClosedUp x := List.forall_mem_cons.mpr ⟨ihbody, ihelifs⟩
    rw [steps_conditional_none]
    refine .whole (.allocate _ (.append ?_ (.place w _)))
    exact closed_stepsElifs false hparts (.inl (by simp)) (fun _ => .inr) _
  | @conditionalElse condition body other bodySpan _ _ elifs _ _ _ ihbody ihelifs ihother =>
    intro w n
    have hparts : ∀ p ∈ (⟨condition, ⟨body, bodySpan⟩⟩ :: elifs : List (Guarded Statement)),
        ∀ x ∈ p.body.statements, ClosedUp x := List.forall_mem_cons.mpr ⟨ihbody, ihelifs⟩
    rw [steps_conditional_some]
    refine .whole (.allocate _ (.append ?_ (.append ?_ (.place w _))))
    · exact closed_stepsElifs true hparts (.inl (by simp)) (fun _ => .inr) _
    · exact (closed_stepsAll ihother w _).mono fun _ => .inr
  | @loop style id condition body _ _ _ ih =>
    intro w n
    -- the exits of the body are labels of the loop, wherever the loop places them
    have hbody := fun test finish k => closed_stepsAll ih (w.inLoop test finish) k
    cases style with
    | testFirst =>
      rw [Statement.steps]
      refine .whole (((((Closed.place w _).allocate _).allocate _).append ?_ |>.append ?_).append ?_)
      · exact closed_condition false (.inl (by simp))
      · refine (hbody _ _ _).mono fun t ht => .inl ?_
        rcases Surroundings.eq_or_eq_of_inLoop ht with rfl | rfl
        · simp
        · simp
      · exact .away w (.inl (by simp)) _
    | testLast =>
      rw [Statement.steps]
      refine .whole ((((((Closed.place w _).allocate _).allocate _).allocate _).append ?_
        |>.append (.place w _)).append ?_ |>.append (.place w _))
      · refine (hbody _ _ _).mono fun t ht => .inl ?_
        rcases Surroundings.eq_or_eq_of_inLoop ht with rfl | rfl
        · simp
        · simp
      · exact closed_condition true (.inl (by simp))
  | @jump kind span =>
    intro w n
    rw [Statement.steps]
    split
    · rename_i label hexit
      exact .goto w ⟨kind, hexit⟩
    · exact .fail _
  | @switch id operand cases _ _ ih =>
    intro w n
    rw [Statement.steps]
    have hnames : (w.labelsFrom n cases.length).length = cases.length := by
      simp [Surroundings.labelsFrom]
    have hkeys : ∀ key ∈ (cases.map (·.label)).zip (w.labelsFrom n cases.length),
        key.2 ∈ w.labelsFrom n cases.length := fun key hkey => (List.of_mem_zip hkey).2
    have hplaced := fun finish name hname => mem_places_stepsCases (w := w.inSwitch finish) finish
      hnames (n + cases.length + 1) (show name ∈ w.labelsFrom n cases.length from hname)
    refine .whole ((((Closed.allocateAll _).append (.allocate _ .nil) |>.append ?_).append ?_
      |>.append ?_).append (.place w _))
    · exact closed_caseTests operand fun key hkey => .inl (by simp [hplaced _ _ (hkeys key hkey)])
    · refine .goto w (.inl ?_)
      rcases fallback_eq (w.label (n + cases.length + 1))
        ((cases.map (·.label)).zip (w.labelsFrom n cases.length)) with h | ⟨key, hkey, h⟩
      · simp [h]
      · simp [h, hplaced _ _ (hkeys key hkey)]
    · refine closed_stepsCases _ ih (.inl (by simp)) (fun t ht => ?_) _
      rcases Surroundings.eq_or_exit_of_inSwitch ht with rfl | ht
      · exact .inl (by simp)
      · exact .inr ht

/-! ## Scripts -/

/-- **No jump leaves a script.** -/
theorem closed_scriptSteps {x : Script} (hbody : ∀ s ∈ x.body, InBody s) (n : Nat) :
    Closed (x.steps n) fun _ => False := by
  have hinside := closed_stepsAll (fun s hs => closed_steps (hbody s hs)) x.surroundings n
  have hopening : Closed (x.opening n) fun _ => False := by
    refine Closed.append (a := [x.surroundings.item (.label x.name x.scope)])
      (.plain rfl rfl) (hinside.mono ?_)
    rintro t ⟨kind, hkind⟩
    cases kind <;> exact nomatch hkind
  unfold Script.steps
  split
  · exact hopening
  · exact hopening.append (.plain rfl rfl)

/-- **Control leaves behind the last item of a script.** -/
theorem leaves_scriptSteps (x : Script) (n : Nat) : leaves (x.steps n) = true := by
  unfold Script.steps
  split
  · assumption
  · simp [leaves, Item.leaves, Item.leavingCommand]

end EventScript
